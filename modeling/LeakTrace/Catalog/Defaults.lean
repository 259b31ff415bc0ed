import LeakTrace.Catalog.Basic

namespace LeakTrace.Catalog

/-- The sorts of data that are known by default. More special ones come first. -/
def defaultDataTypes : List DataTypeDraft := [
  { dataType := ⟨"Device Identifier", "device_identifier", "identification"⟩
    patterns := ["\\b(device|imei|udid|idfa|advertising) (id|uuid|identifier)\\b"]
    allowIdentifier := true },
  { dataType := ⟨"Unique Identifier", "unique_identifier", "identification"⟩
    patterns := ["\\b(uu)?id\\z"]
    allowIdentifier := true },
  { dataType := ⟨"Social Security Number", "social_security_number", "government_id"⟩
    patterns := ["\\bssn\\b", "\\bsocial security( number)?\\b"] },
  { dataType := ⟨"Passport Number", "passport_number", "government_id"⟩
    patterns := ["\\bpassport( number| no)?\\b"] },
  { dataType := ⟨"Driver License", "driver_license", "government_id"⟩
    patterns := ["\\bdrivers? licen[cs]e\\b"] },
  { dataType := ⟨"Tax Identifier", "tax_identifier", "government_id"⟩
    patterns := ["\\b(tax number|vat number|tin|fiscal (code|information|number))\\b"] },
  { dataType := ⟨"Fullname", "fullname", "personal"⟩
    patterns := ["\\bfull ?name\\b", "\\b(user|customer|person) ?name\\b"]
    excludePatterns := ["\\bfile ?name\\b", "\\bhost ?name\\b", "\\bclass ?name\\b"] },
  { dataType := ⟨"Firstname", "firstname", "personal"⟩
    patterns := ["\\bfirst ?name\\b", "\\bgiven ?name\\b", "\\bforename\\b"] },
  { dataType := ⟨"Lastname", "lastname", "personal"⟩
    patterns := ["\\blast ?name\\b", "\\bsurname\\b", "\\bfamily ?name\\b"] },
  { dataType := ⟨"Date of Birth", "date_of_birth", "personal"⟩
    patterns := ["\\b(date of birth|birth ?date|birthday|dob)\\b"] },
  { dataType := ⟨"Gender", "gender", "personal"⟩
    patterns := ["\\bgender\\b", "\\bsex\\b"] },
  { dataType := ⟨"Age", "age", "personal"⟩
    patterns := ["\\bage\\z"] },
  { dataType := ⟨"Email Address", "email_address", "contact"⟩
    patterns := ["\\be ?mail( address)?\\b"]
    excludePatterns := ["\\be ?mail (template|subject|body|sent|enabled|service)\\b"] },
  { dataType := ⟨"Telephone Number", "telephone_number", "contact"⟩
    patterns := [
      "\\b(tele)?phone( number)?\\b", "\\bmobile( number)?\\b", "\\bcell ?phone\\b", "\\bmsisdn\\b"] },
  { dataType := ⟨"Physical Address", "physical_address", "location"⟩
    patterns := [
      "\\b(street|home|billing|shipping|postal|mailing) address\\b", "\\baddress line\\b",
      "\\baddress\\z"]
    excludePatterns := ["\\b(ip|mac|email|wallet|remote) address\\b"] },
  { dataType := ⟨"Postal Code", "postal_code", "location"⟩
    patterns := ["\\b(zip|postal|post) ?code\\b", "\\bzip\\b", "\\bpostcode\\b"] },
  { dataType := ⟨"City", "city", "location"⟩
    patterns := ["\\bcity\\b", "\\btown\\b"] },
  { dataType := ⟨"GPS Coordinates", "gps_coordinates", "location"⟩
    patterns := ["\\b(latitude|longitude|geo ?location|coordinates)\\b"] },
  { dataType := ⟨"IP Address", "ip_address", "online_identifier"⟩
    patterns := ["\\bip( address)?\\z", "\\bremote (ip|address)\\b"] },
  { dataType := ⟨"Credit Card Number", "credit_card_number", "financial"⟩
    patterns := ["\\b(credit|debit)? ?card (number|no)\\b", "\\bcc number\\b"] },
  { dataType := ⟨"Card Verification Code", "card_verification_code", "financial"⟩
    patterns := ["\\b(cvv|cvc|cvv2|card verification)\\b"] },
  { dataType := ⟨"Bank Account Number", "bank_account_number", "financial"⟩
    patterns := [
      "\\b(iban|bic|swift)\\b", "\\b(bank )?account number\\b", "\\brouting number\\b"] },
  { dataType := ⟨"Salary", "salary", "financial"⟩
    patterns := ["\\bsalary\\b", "\\bincome\\b"] },
  { dataType := ⟨"Health Record", "health_record", "health"⟩
    patterns := [
      "\\b(diagnosis|medical (record|history|condition)|prescription|blood type|allergies)\\b"] },
  { dataType := ⟨"Password", "password", "credentials"⟩
    patterns := ["\\bpass ?word\\b", "\\bpasswd\\b", "\\bpwd\\b", "\\bpassphrase\\b"]
    excludePatterns := ["\\bpassword (policy|length|reset url|hint label)\\b"] },
  { dataType := ⟨"Access Token", "access_token", "credentials"⟩
    patterns := ["\\b(access|auth|bearer|refresh|session|id) token\\b", "\\bjwt\\b"] },
  { dataType := ⟨"API Key", "api_key", "credentials"⟩
    patterns := [
      "\\bapi ?key\\b", "\\bapi secret\\b", "\\bclient secret\\b", "\\bsecret key\\b",
      "\\bprivate key\\b"] }]

def defaultDraft : CatalogDraft :=
  { dataTypes := defaultDataTypes
    knownObjects := [
      "\\b(user|users)\\b", "\\b(customer|customers)\\b", "\\b(employee|employees)\\b",
      "\\b(patient|patients)\\b", "\\b(person|people)\\b",
      "\\b(member|client|contact|profile|account)\\b",
      "\\b(buyer|seller|applicant|student|subscriber)\\b"]
    stopWords := [
      "this", "props", "prop types", "exports", "export", "env", "argv", "arguments", "errors",
      "args", "state", "filter", "memberships"]
    vendorDirectories := ["vendor", "node_modules", "third_party"]
    fallbackOnUnresolved := true }

def builtIn [RegexEngine] : Except SetupError Catalog := ofDraft defaultDraft

end LeakTrace.Catalog
