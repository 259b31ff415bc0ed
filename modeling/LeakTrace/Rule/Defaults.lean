import LeakTrace.Rule.Set

namespace LeakTrace.RuleDraft

def valuesOf (capture : String) (values : List String) : FilterDraft :=
  { capture, values }

def stringLike (capture regex : String) : FilterDraft :=
  { capture, stringRegex := regex }

def loggerFilters : List FilterDraft := [
  valuesOf "LOGGER" ["console", "logger", "log", "winston", "pino", "bunyan"],
  valuesOf "LEVEL" ["log", "info", "warn", "error", "debug", "trace", "fatal"]]

def axiosMethods : List FilterDraft := [
  valuesOf "METHOD" ["post", "put", "patch"]]

def requestFilters : List FilterDraft := [
  { capture := "REQUEST", regex := "(?i)(xhr|request)$" }]

def analyticsFilters : List FilterDraft := [
  valuesOf "SDK" ["analytics", "mixpanel", "amplitude", "posthog", "Sentry", "datadogRum"],
  valuesOf "METHOD" [
    "track", "identify", "capture", "setUser", "setContext", "setUserProperties"]]

def storageFilters : List FilterDraft := [
  valuesOf "STORAGE" [
    "localStorage", "sessionStorage", "window.localStorage", "window.sessionStorage"]]

/-- Addresses without encryption, other than those of the machine itself. -/
def insecureUrl : List FilterDraft := [
  stringLike "URL" "^http://",
  { not := stringLike "URL" "^http://(localhost|127\\.0\\.0\\.1)" }]

def defaults : List RuleDraft := [
  { id := "javascript_logger_leak"
    title := "Sensitive data sent to a logger"
    description :=
      "Personal or secret data is written to application logs. Logs are retained, shipped to " ++
      "third parties and read by people who should not see this data.\n"
    remediation :=
      "Log an identifier instead of the record itself.\nMask or drop sensitive fields before " ++
      "logging.\n"
    severity := .high
    cwe := some "CWE-532"
    languages := ["javascript"]
    patterns := [
      { pattern := "$<LOGGER>.$<LEVEL>($<DATA>, $<...>)", filters := loggerFilters },
      { pattern := "$<LOGGER>.$<LEVEL>($<_>, $<DATA>, $<...>)", filters := loggerFilters },
      { pattern := "$<LOGGER>.$<LEVEL>($<...>, $<DATA>)", filters := loggerFilters }]
    dataTypes := ["DATA"] },
  { id := "javascript_http_leak"
    title := "Sensitive data sent over HTTP"
    description := "Personal or secret data is sent in the body of an outgoing HTTP request.\n"
    remediation :=
      "Make sure the receiving service is allowed to process this data.\nSend only the " ++
      "fields the service needs.\n"
    severity := .high
    cwe := some "CWE-201"
    languages := ["javascript"]
    patterns := [
      { pattern := "fetch($<_>, \x7b body: $<DATA> \x7d)" },
      { pattern := "axios.$<METHOD>($<_>, $<DATA>, $<...>)", filters := axiosMethods },
      { pattern := "axios(\x7b data: $<DATA> \x7d)" },
      { pattern := "$<REQUEST>.send($<DATA>)", filters := requestFilters }]
    dataTypes := ["DATA"] },
  { id := "javascript_analytics_leak"
    title := "Sensitive data sent to an analytics service"
    description :=
      "Personal or secret data is sent to a third-party analytics or error tracking SDK.\n"
    remediation :=
      "Send pseudonymous identifiers to analytics services.\nConfigure the SDK to scrub " ++
      "personal data.\n"
    severity := .medium
    cwe := some "CWE-359"
    languages := ["javascript"]
    patterns := [
      { pattern := "$<SDK>.$<METHOD>($<DATA>, $<...>)", filters := analyticsFilters },
      { pattern := "$<SDK>.$<METHOD>($<_>, $<DATA>, $<...>)", filters := analyticsFilters },
      { pattern := "$<SDK>.$<METHOD>($<...>, $<DATA>)", filters := analyticsFilters }]
    dataTypes := ["DATA"] },
  { id := "javascript_storage_leak"
    title := "Sensitive data stored in the browser"
    description :=
      "Personal or secret data is written to browser storage or cookies, where any script on " ++
      "the page can read it.\n"
    remediation :=
      "Keep sensitive data on the server.\nUse an HttpOnly cookie holding an opaque session " ++
      "id.\n"
    severity := .medium
    cwe := some "CWE-922"
    languages := ["javascript"]
    patterns := [
      { pattern := "$<STORAGE>.setItem($<_>, $<DATA>)", filters := storageFilters },
      { pattern := "document.cookie = $<DATA>" }]
    dataTypes := ["DATA"] },
  { id := "javascript_insecure_http"
    title := "Request over plain HTTP"
    description :=
      "A request is sent over unencrypted HTTP. Anything in it, including headers and " ++
      "cookies, can be read or changed in transit.\n"
    remediation := "Use an https:// URL.\n"
    severity := .low
    cwe := some "CWE-319"
    languages := ["javascript"]
    patterns := [
      { pattern := "fetch($<URL>, $<...>)", filters := insecureUrl },
      { pattern := "axios.$<METHOD>($<URL>, $<...>)", filters := insecureUrl }]
    requiresDataTypes := some false },
  { id := "rust_logger_leak"
    title := "Sensitive data sent to a logger"
    description :=
      "Personal or secret data is written to application logs through the log or tracing " ++
      "macros.\n"
    remediation :=
      "Log an identifier instead of the record itself.\nImplement Debug by hand to redact " ++
      "sensitive fields.\n"
    severity := .high
    cwe := some "CWE-532"
    languages := ["rust"]
    patterns := [
      { pattern := "info!($<...>, $<DATA>)" },
      { pattern := "info!($<_>, $<DATA>, $<...>)" },
      { pattern := "warn!($<...>, $<DATA>)" },
      { pattern := "warn!($<_>, $<DATA>, $<...>)" },
      { pattern := "error!($<...>, $<DATA>)" },
      { pattern := "error!($<_>, $<DATA>, $<...>)" },
      { pattern := "debug!($<...>, $<DATA>)" },
      { pattern := "debug!($<_>, $<DATA>, $<...>)" },
      { pattern := "log::info!($<...>, $<DATA>)" },
      { pattern := "log::error!($<...>, $<DATA>)" },
      { pattern := "tracing::info!($<...>, $<DATA>)" },
      { pattern := "tracing::error!($<...>, $<DATA>)" }]
    dataTypes := ["DATA"] },
  { id := "rust_print_leak"
    title := "Sensitive data printed to the console"
    description :=
      "Personal or secret data is printed to standard output or standard error, which " ++
      "usually ends up in container logs.\n"
    remediation := "Remove the print statement or print a redacted value.\n"
    severity := .medium
    cwe := some "CWE-532"
    languages := ["rust"]
    patterns := [
      { pattern := "println!($<...>, $<DATA>)" },
      { pattern := "println!($<_>, $<DATA>, $<...>)" },
      { pattern := "eprintln!($<...>, $<DATA>)" },
      { pattern := "eprintln!($<_>, $<DATA>, $<...>)" },
      { pattern := "dbg!($<DATA>)" }]
    dataTypes := ["DATA"] },
  { id := "rust_http_leak"
    title := "Sensitive data sent over HTTP"
    description :=
      "Personal or secret data is sent in the body or query of an outgoing HTTP request.\n"
    remediation :=
      "Make sure the receiving service is allowed to process this data.\nSend only the " ++
      "fields the service needs.\n"
    severity := .high
    cwe := some "CWE-201"
    languages := ["rust"]
    patterns := [
      { pattern := "$<_>.json($<DATA>)" },
      { pattern := "$<_>.form($<DATA>)" },
      { pattern := "$<_>.query($<DATA>)" },
      { pattern := "$<_>.body($<DATA>)" }]
    dataTypes := ["DATA"] },
  { id := "rust_insecure_http"
    title := "Request over plain HTTP"
    description := "A request is sent over unencrypted HTTP.\n"
    remediation := "Use an https:// URL.\n"
    severity := .low
    cwe := some "CWE-319"
    languages := ["rust"]
    patterns := [
      { pattern := "reqwest::get($<URL>)", filters := insecureUrl },
      { pattern := "$<_>.get($<URL>)", filters := insecureUrl },
      { pattern := "$<_>.post($<URL>)", filters := insecureUrl }]
    requiresDataTypes := some false }]

end LeakTrace.RuleDraft

namespace LeakTrace.RuleSet

def builtIn [RegexEngine] : Except SetupError RuleSet := ofDrafts RuleDraft.defaults

end LeakTrace.RuleSet
