import LeakTrace.Text.CharSet

namespace LeakTrace.Letter

/-- Characters of words: letters, marks, digits, connecting punctuation and joiners. -/
def wordSet : CharSet := CharSet.ofHex
  ["30-9 11-19 1e 2-19 49 b 5 6-16 18-1e 20-1c9 1ce-b 1a-4 c 2 12-74 76-1 4-3 5 7 2-2 4 2-13",
    "15-52 54-8a 8c-ac ae-25 28 7-28 31-2c 2e 2-1 3-1 3 9-1a 1f-3 21-a 10-49 4e-65 67-7 a-9",
    "b-12 15 11-3a 3d-64 73-35 3a 3 3-2d 40-1b 20-a 10-17 19-6 e-4a 4c-80 83-9 b-12 14-7 a-1",
    "4-15 17-6 8 4-3 6-8 b-1 4-3 c 5-1 3-4 7-b 16 2 3-2 4-5 a-1 4-15 17-6 8-1 3-1 3-1 4 2-4",
    "9-1 4-2 6 8-3 5 8-f 1b-2 4-8 a-2 4-15 17-6 8-1 3-4 7-9 b-2 4-2 5 10-3 6-9 13-6 8-2 4-7",
    "a-1 4-15 17-6 8-1 3-4 7-8 b-1 4-2 a-2 7-1 3-4 7-9 b 11-1 3-5 9-2 4-3 7-1 3 2-1 5-1 5-2",
    "6-b 10-4 8-2 4-3 6 7 f-9 1a-c e-2 4-16 18-f 12-8 a-2 4-3 b-1 3-2 4-1 4-3 6-9 1a-3 5-7",
    "9-2 4-16 18-9 b-4 7-8 a-2 4-3 b-1 7-2 4-3 6-9 b-2 f-c e-2 4-32 34-2 4-4 a-3 b-4 7-9 14-5",
    "7-2 4-11 15-17 19-8 a 3-6 a 5-5 7 2-7 e-9 c-1 f-39 3f-e 10-9 31-1 3 2-4 6-17 19 2-16",
    "19-4 6 2-6 8-9 c-3 24 18-1 8-9 15 2 2 5-9 b-23 28-13 15-11 13-23 2d 3a-49 50-4d 50-25 27",
    "6 3-2a 2c-14c 14e-3 6-6 8 2-3 6-28 2a-3 6-20 22-3 6-6 8 2-3 6-e 10-38 3a-3 6-42 45-2",
    "23-f 20-55 58-5 9-26b 26e-10 12-19 1f-4a 4e-a 12-15 1f-15 21-13 20-c e-2 4-1 e-53 57 5-1",
    "4-9 2b-2 4-a 11-58 60-2a 30-45 50-1e 20-b 10-b 16-27 2a-4 10-2b 30-19 20-9 30-1b 20-3e",
    "40-1c 1f-a 11-9 17 9-2d 30-b 20-4c 50-9 1b-8 15-73 80-37 40-9 d-30 33-a 10-2a 2d-2 13-2",
    "4-26 2c-215 218-5 8-25 28-5 8-7 9 2 2 2-1e 21-34 36-6 8 4-2 4-6 a-3 6-5 a-c 12-2 4-6",
    "16-1 33-1 15 1d e 11-c 40-20 32 5 3-9 b 4-4 b 2 2 2-3 5-a d-3 9-4 9 12-28 356-33 74a-e4",
    "eb-8 15-25 27 6 3-37 3f 10-17 21-6 8-6 8-6 8-6 8-6 8-6 8-6 8-6 8-1f 4f 1d6-2 1c-e 10-4",
    "7-4 9-55 58-1 4-2 4-59 5b-3 9-2a 2c-5d 6f-1f 50-f 210-19bf 1a00-568c 56d0-2d 30-10c",
    "110-1b 30-32 34-9 b-72 98-8 b-66 69-51 66-36 3b 14-33 40-45 50-9 10-17 1b 2-30 33-23",
    "30-1c 20-40 4f-a 11-1e 20-36 40-d 10-9 10-16 1a-48 61-2 5-f 12-4 f-5 8-5 8-5 f-6 8-6",
    "8-2a 2c-d 14-7a 7c-1 4-9 10-2ba3 2bb0-16 1b-30 2135-16d 170-69 90-6 13-4 a-b d-c e-4 6",
    "2-1 3-1 3-6b 8d-16a 17d-3f 42-35 5e-b 10-f 20-f 13-1 1a-2 23-4 6-86 9a-9 11-19 1e 2-19",
    "25-58 5c-5 8-5 8-5 8-2 26-b d-19 1b-12 14-1 3-e 11-d 30-7a c0-34 bd 83-1c 20-30 40 20-1f",
    "2d-1d 23-2a 30-1d 20-23 28-7 9-4 2f-9d a0-9 10-23 28-23 28-27 30-33 40-a c-e 10-6 8-1",
    "3-a c-e 10-6 8-1 5-33 40-136 140-15 20-7 20-5 7-29 2b-8 4e-5 8 2-2b 2d-1 5 3-16 21-16",
    "20-1e 60-12 14-1 c-15 20-19 20-19 40-37 3e-1 42-3 5-1 7-7 9-2 4-1c 1f-2 7 21-1c 20-1c",
    "40-7 9-1d 37-35 40-15 20-12 20-11 80-48 80-32 40-32 40-27 30-9 10-25 29-4 6-16 111-29",
    "2b-1 5-1 12-5 38-22 2d 9-20 40-15 40-14 30-16 20-46 66-f 19-3b 43 e-18 20-9 10-34 36-9",
    "e-3 c-23 26 a-44 49-3 5-c e 24-11 13-24 2b-3 42-6 8 2-3 5-e 10-9 11-3a 40-9 10-3 5-7 a-1",
    "4-15 17-6 8-1 3-4 6-9 c-1 4-2 5 7 6-6 9-6 a-4 10-9 b 3 2-25 27-9 b 3 2-3 5-7 15-1 1f-4a",
    "50-9 e-3 22-45 47 9-9 b0-35 38-8 20-5 28-40 44 c-9 30-38 40-9 10-13 30-1a 1d-e 13-9 10-6",
    "c0-3a a0-49 5f-7 a 3-7 9-1 3-1d 1f-1 4-8 15-9 50-7 a-2d 30-7 9-1 1d-3e 47 9-49 4d 13-48",
    "b0-7 60-20 30-9 10-8 a-2c 2e-8 18-9 22-1d 20-15 17-d 57-6 8-1 3-2b 2f 2-1 3-8 11-9 10-5",
    "7-1 3-24 26-1 3-5 d-9 10-2b 30-9 100-16 20-10 12-28 2c-4 12-a 60 50-399 400-6e 80-c3",
    "b10-60 70-42f 440-15 20-f9a fa0-246 1d00-39 700-238 240-1e 20-9 10-4e 50-9 10-1d 20-4",
    "10-36 40-3 10-9 13-14 1a-12 1c3-2c 30-9 d0-3f 60-18 1b-18 45-4a 4f-38 40-10 51-1 3-1 d-6",
    "10-1cd5 1cff-1f 81-72 2270-3 5-6 8-1 3-122 132 1e-2 5 f-3 c-18b a90-6a 70-c 10-8 10-9",
    "d-1 1053-9 210-2d 30-16 235-4 8-5 e-7 a-6 25-3 98-2 1be-54 56-46 48-1 4 3-1 4-3 5-b d",
    "2-6 8-40 42-3 6-7 9-6 8-1b 1d-3 5-4 6 4-6 8-153 156-18 1a-18 1a-1e 20-18 1a-1e 20-18",
    "1a-1e 20-18 1a-1e 20-18 1a-7 a-31 232-36 3b-31 3a f 17-4 6-e 45f-1e 25-5 db-6 8-10 13-6",
    "8-1 3-4 a-3d 5f 71-2c 30-d 10-9 e 142-1e 30-39 210-29 100-2a f0-1e 20-15 1e-1 e2-6 8-3",
    "5-1 3-e 10-c4 d0-6 30-4b 50-9 4b0-3 5-1a 1c-1 3 3 2-9 b-3 5 2 7 5 2 2 2-2 4-1 3 3 2 2 2",
    "2 2-1 3 3-3 5-6 8-3 5-3 5 2-9 b-10 16-2 4-4 6-10 285-19 20-19 20-19 a80-9 410-a6df",
    "a700-111d 1120-168d 1690-1d30 1d40-26d c10-21d 800-134a 1350-2129 aedb0-ef"]

/-- Letters and numbers of every script. Words also have marks and joiners, and no numbers but digits. -/
def alphanumericSet : CharSet := (wordSet.diff (CharSet.ofHex
  ["5f 2a1-44 46-1c 13d-6 10e-1e c7 87-1 b-2 56-a ab-8 12 1b-1 15 2c-2 3f-7 32-9 16-1 a-5 52",
    "11 4-3 6b 11 31 3e 11 6f 11 30-2 3f 11 8 78 6f 11 6f 11 6e-1 12 7d 7d-5 7 6c e-4 6 4a-1",
    "1d 2 2 5-1 46 2-1 40 71 2-1 324-2 3b7-1 20 80-1 15-a 14 2e-2 4 12a-2 127 15-7 a 31-e",
    "11-a e-e 11-b 54 10 27-8 3f-1 3c c-1 45 99-2 4-14 19 7 3-2 c9-12 35-a 217-1 33-1 15",
    "7c-20 c1f-2 90 2ab-5 6f-1 75d6-3 d-1 74-1 116 26 98 1c-11 4b-2 28 60 d ff 2 35 f6-1",
    "5214-f 20-f 13-1 1a-2 f2 2be e3 758-2 7 a6-1 285-3 193-2 49-a 3c-3 c4 2a f 3a-1 7a-1 40",
    "4d 9-3 6c-1 b4-1 52-1 12 19-6 a-4 5e-2 4 f-1 61 4 18 64-1 fd-1 80 77-1 75 10e-1 104-1 6",
    "9d 53-1 14 51-1 1a7 103 2-1 53 1aa-1 19 14e6 7-e 2ce8 9c1-4 40-6 4b4 4cb9 1263-2d 30-16",
    "235-4 8-5 e-7 a-6 25-3 98-2 7be-36 3b-31 3a f 17-4 6-e 68f-6 17e 3e-3 200-3 102-1 2e2-6",
    "74-2 4-2 c17b8-ef"])).union (CharSet.ofHex
  ["b2-1 7 3-2 938-5 17e-5 7e-2 88-6 e0-6 18-8 1ba-9 43f-13 487-9 1ea 696 4-5 c-9 d0-f 39",
    "2d7-3b 8a-15 28c-1d 587 495-3 8e-9 28-7 9-e 2f-9 31-e 757f-5 58d7-2c 6e-3 15-1 157-1a",
    "3f-3 538-7 21-6 2e-8 54-4 1b-5 a6-1 4-f 12-2d 6e-8 3d-1 20-2 4e-4 6d-7 20-7 31-6 151-5",
    "166-1e bd-9 34-3 74-6 8d-13 18f-13 559-1 1b0-8 370-12 366-14 4b9b-6 325-16 6440-13 20-13",
    "80-18 1567-8 3aa-3a 3c-2 4-3 50-2c 2e-e 3d1-c"])

def uppercaseSet : CharSet := CharSet.ofHex
  ["41-19 7f-16 18-6 28-36/2 39-e/2 11-2c/2 2e-1 3 2 4-1 3 2-1 3-2 5-3 5-1 3-2 6-1 3-1 3 2",
    "2-1 3 3 2-1 3-2 4 2-1 5 8 3 3 3-e/2 11-10/2 13 3 2-2 4-38/2 40-1 3-1 4 2-3 5-6/2 128 2 4",
    "9 7 2-2 4 2-1 3-10 12-8 2c 3-2 6-16/2 1c 3 2-1 4-32 63-20/2 2a-34/2 36-1 3-a/2 d-5e/2",
    "61-25 b6f-25 27 6 2d3-55 8e9 7-2a 2d-2 143-94/2 9e-60/2 6a-7 10-5 10-7 10-7 10-5 11-6/2",
    "f-7 50-3 10-3 10-3 10-4 10-3 10a 5 4-2 5-2 5 4-4 b-4/2 6-3 6-3 e-1 7 1b-f 23 333-19",
    "74a-2f 60 2-2 5-4/2 6-3 5 3 9-2 4-60/2 69 2 5 794e-2c/2 40-1a/2 a2-c/2 10-3c/2 47 2 2-1",
    "3-6/2 b 2 3 2 4-12/2 14-4 6-4 6-c/2 e-3 5 2-1 3-e/2 27 572c-19 4df-27 b0-23 c0-a c-e",
    "10-6 8-1 6ec-32 d0-15 b50-1f 55a0-1f 60-18 6560-19 34-19 34-19 34 2-1 4 3-1 4-3 5-7",
    "22-19 34-1 3-3 6-7 9-6 22-1 3-3 5-4 6 4-6 22-19 34-19 34-19 34-19 34-19 34-19 38-18",
    "3a-18 3a-18 3a-18 3a-18 3a 1136-21 830-19 20-19 20-19"]

def lowercaseSet : CharSet := CharSet.ofHex
  ["61-19 49 b 5 25-17 19-7 9-34/2 36-1 3-c/2 e-1 3-2c/2 2f 2 2-2 5 2 3 4-1 6 3 4-2 5 3-4/2",
    "7 2-1 3 3 4 2 3-1 4-2 9 3 3-e/2 10-1 3-e/2 10-1 4 2 4-38/2 3a-6 9 3-1 3 5-6/2 8-44 47-22",
    "2a-1 20-4 65 2c 2 4 3-3 16 1c-22 24-1 5-2 4-14/2 16-4 6 3 3-1 35-2f 31-20/2 2a-34/2",
    "37-a/2 c-1 3-5e/2 8f-28 b70-2a 2c-3 2fc-5 888-8 a 76-bf 101-92/2 94-8 a-5e/2 60-8 11-5",
    "10-7 10-7 10-5 10-7 10-7 10-d 10-7 10-7 10-7 10-4 6-1 8 4-2 4-1 a-3 6-1 a-7 12-2 4-1 7b",
    "e 11-c 7a 4-1 5 1c 5 5 3-1 a-3 8 22-f 14 34c-19 760-2f 31 4-1 3-4/2 9 2-1 3-7 b-60/2",
    "62-1 9 2 5 d-25 27 6 7914-2c/2 40-18/2 1a-2 88-a/2 c-2 4-3a/2 3c-9 b 2 3-8/2 d 2 3 2-2",
    "4-12/2 18 6-e/2 13 2 3-e/2 24-3 5 2-2 338-2a 2c-d 14-4f 4f90-6 13-4 42e-19 4e7-27 b0-23",
    "bf-a c-e 10-6 8-1 1c5 3-2 4-29 2b-8 50e-32 b0-15 b50-1f 55a0-1f 5b-18 655f-19 34-6 8-11",
    "2c-19 34-3 5 2-6 8-a 25-19 34-19 34-19 34-19 34-19 34-19 34-19 34-19 34-1b 38-18 1a-5",
    "20-18 1a-5 20-18 1a-5 20-18 1a-5 20-18 1a-5 7 735-9 b-13 1a-5 10b-3d 8f2-21"]

def digitSet : CharSet := CharSet.ofHex
  ["30-9 630-9 90-9 d0-9 1a6-9 80-9 80-9 80-9 80-9 80-9 80-9 80-9 80-9 80-9 6a-9 80-9 50-9",
    "120-9 50-9 750-9 30-9 136-9 8a-9 b0-9 10-9 c0-9 60-9 90-9 10-9 89d0-9 2b0-9 30-9 d0-9",
    "20-9 60-9 1a0-9 5320-9 590-9 890-9 10-9 326-9 8a-9 46-9 9a-9 120-9 160-9 80-9 180-9 70-9",
    "10-13 60-9 1b0-9 70-9 2a0-9 60-9 100-9 50-9 40-9 170-9 41e0-9 930-9 60-9 90-9 220-9",
    "5f80-9 ade-31 972-9 1b0-9 200-9 101-9 35f-9 12a0-9"]

/-- Characters that may continue an identifier: those of words, up to a few. -/
def nameContinueSet : CharSet := (wordSet.diff (CharSet.ofHex
  ["37a 10e-1 1636 61f-3 5-2 3d4-33 979 7841-2 55ee-5 19c-1 76 2 2 2 2 2 2 2 f2b2-19 20-19",
    "20-19"])).union (CharSet.ofHex
  ["b7 2d0 fe2-8 671 73e 16 fcd ce6a"])

def nameStartSet : CharSet := nameContinueSet.diff (CharSet.ofHex
  ["30-9 2f 58 249-6f 87 fc-4 10e-2c 2e 2-1 3-1 3 49-a 3b-1e 25 66-6 9-5 8-1 3-3 6-9 21",
    "1f-1a 76-a 1a-9 2b-8 12 19-3 5-8 a-2 4-4 30-2 3e-8 33-17 19-20 57-2 4-11 13-6 11-1 4-9",
    "1b-2 3b 2-6 9-1 4-2 c b-1 4-9 18 3-2 3b 2-4 9-1 4-2 6 15-b f c-2 3b 2-7 9-2 4-2 17-1 4-9",
    "14-5 7-2 3b 2-6 9-1 4-2 a-2 d-1 4-9 1c 3c-4 8-2 4-3 d f-9 1a-4 3c 2-6 8-2 4-3 b-1 d-1",
    "4-9 1b-2 3b 2-6 8-2 4-3 b-1 d-1 4-9 d d-3 3b-1 3-6 8-2 4-3 d b-1 4-9 1b-2 49 5-5 7 2-7",
    "e-9 c-1 3f 2-7 14-7 9-9 61 2-9 15-6 8-9 48-1 8-9 15 2 2 5-1 33-13 15-1 7-a c-23 2d 65-13",
    "15-9 16-3 8-2 4-2 5-6 a-3 11-b d-e 2ce-2 c-8 3a9-3 20-2 20-1 20-1 42-1f 29 3-9 2b-2 4-a",
    "9a 77-b 10-b 16-9 8a-a 47-4 3e-9 b-1c 1f-a 11-9 20-d f-1e 21-b 20-4 34-10 1c-9 1b-8 15-2",
    "21-c f-9 36-d 3e-13 1c-9 10-9 80-2 4-14 19 7 3-2 c9-3f 24c-1 33-1 15 7c-c 11 4-b c0a-2",
    "90 61-1f 24a-5 6f-1 62 7525-9 4f 5-9 2a-1 52-1 112 4 5 18-4 9 54-1 34-11 1c-9 10-11 1f-a",
    "27-7 21-c 39-3 33-d 1d-9 15 b-9 39-d 1a 9-1 4-9 2b-2 35 2-2 5-1 7-1 3 2a-4 a-1 ee-7 9-1",
    "4-9 4f2e 2e2-f 20-f 13-1 1a-2 c3-9 2f 26 39-1 25f e3 96-4 12a-9 561-2 4-1 7-3 2c-2 7",
    "a6-1 23f-3 c-9 10-9 29-4 142-1 4f-5 4c-a 3c-3 7e-2 38-e 2e-a d-1 c-3 31-a 12 2e-9 10-2",
    "27-d f-9 f-1 2e d-2 33-d 16-3 5-b 5e-b 12 3 9e-b 11-9 10-3 3b-1 3-6 9-1 4-2 c b-1 4-6",
    "a-4 48-8 a 3 2-3 5-4 6 f-1 54-11 1b-9 e 52-13 20-9 df-6 9-8 24-1 54-10 20-9 5b-c 15-9",
    "10-13 4d-e 13-9 fc-e b4-9 50-5 7-1 4-3 5 2-1 e-9 81-6 9-6 a 1d-9 32-6 8-3 c a-a 39-f",
    "d6-7 90-9 3f-7 9-7 18-9 42-15 17-d 88-5 9 2-1 3-6 8 9-9 3a-4 6-1 3-4 d-9 40-9 113-3 d-1",
    "3 31-6 a-4 12-a 14f0 7-e 2cd7-1b 942-9 60-9 30-4 40-6 20-9 220-9 1df 2-36 3e-3 55 c-1",
    "4cad-1 1053-9 210-2d 30-16 235-4 8-5 e-7 a-6 25-3 98-2 58c-31 232-36 3b-31 3a f 17-4 6-e",
    "55f-6 8-10 13-6 8-1 3-4 69 a1-6 10-9 16e 3e-d 200-d 102-1 3-9 f2 3 8-1 7 1db-6 74-6 c-9",
    "12a0-9 c0510-ef"])

/-- Lower-case forms that are a single character. -/
def lowerMap : CharMap := CharMap.ofHex
  ["41-19:20 7f-16:20 18-6:20 28-2e/2:1 32-4/2:1 7-e/2:1 11-2c/2:1 2e:-79 1-4/2:1 8:d2",
    "1-2/2:1 4:ce 1:1 2-1:cd 2:1 3:4f 1:ca 1:cb 1:1 2:cd 1:cf 2:d3 1:d1 1:1 4:d3 1:d5 2:d6",
    "1-4/2:1 6:da 1:1 2:da 3:1 2:da 1:1 2-1:d9 2-2/2:1 4:db 1:1 4:1 8:2 1:1 2:2 1:1 2:2",
    "1-10/2:1 13-10/2:1 13:2 1-2/2:1 4:-61 1:-38 1-26/2:1 28:-82 2-10/2:1 18:2a2b 1:1 2:-a3",
    "1:2a28 3:1 2:-c3 1:45 1:47 1-8/2:1 12a-2/2:1 6:1 9:74 7:26 2-2:25 4:40 2-1:3f 3-10:20",
    "12-8:20 2c:8 9-16/2:1 1c:-3c 3:1 2:-7 1:1 3-2:-82 3-f:50 10-1f:20 50-20/2:1 2a-34/2:1",
    "36:f 1-c/2:1 f-5e/2:1 61-25:30 b6f-25:1c60 27:1c60 6:1c60 2d3-4f:97d0 50-5:8 899:1",
    "7-2a:-bc0 2d-2:-bc0 143-94/2:1 9e:-1dbf 2-5e/2:1 68-7:-8 10-5:-8 10-7:-8 10-7:-8 10-5:-8",
    "11-6/2:-8 f-7:-8 20-7:-8 10-7:-8 10-7:-8 10-1:-8 2-1:-4a 2:-9 c-3:-56 4:-9 c-1:-8",
    "2-1:-64 e-1:-8 2-1:-70 2:-7 c-1:-80 2-1:-7e 2:-9 12a:-1d5d 4:-20bf 1:-2046 7:1c 2e-f:10",
    "23:1 333-19:1a 74a-2f:30 60:1 2:-29f7 1:-ee6 1:-29e7 3-4/2:1 6:-2a1c 1:-29fd 1:-2a1f",
    "1:-2a1e 2:1 3:1 9-1:-2a3f 2-62/2:1 6b-2/2:1 7:1 794e-2c/2:1 40-1a/2:1 a2-c/2:1 10-3c/2:1",
    "47-2/2:1 4:-8a04 1-8/2:1 d:1 2:-a528 3-2/2:1 6-12/2:1 14:-a544 1:-a54f 1:-a54b 1:-a541",
    "1:-a544 2:-a512 1:-a52a 1:-a515 1:3a0 1-e/2:1 10:-30 1:-a543 1:-8a38 1-2/2:1 4:-a567",
    "1-e/2:1 10:-a641 19:1 572c-19:20 4df-27:28 b0-23:28 c0-24/2:27 1-8/2:27 c-c/2:27",
    "10-4/2:27 8:27 6eb-32:40 d0-15:20 b50-1f:20 55a0-1f:20 60-18:1b 7a60-21:22"]

/-- For each cased character, the other characters that differ from it only in case. -/
def caseMap : CharMap := CharMap.ofClasses
  ["41-9:20 a:20,20df 1-e/2:20 1-4/2:20 6:20,12c 2-4/2:20 60:2e7,307 b-1e/2:20 1-2/2:20",
    "4:20,2066 2-e/2:20 12-4/2:20 6:1dbf 20:79 1-2e/2:1 32-4/2:1 7-e/2:1 11-2c/2:1 2f-4/2:1",
    "7:c3 1:d2 1-2/2:1 4:ce 1:1 2-1:cd 2:1 3:4f 1:ca 1:cb 1:1 2:cd 1:cf 1:61 1:d3 1:d1 1:1",
    "2:a3 1:a641 1:d3 1:d5 1:82 1:d6 1-4/2:1 6:da 1:1 2:da 3:1 2:da 1:1 2-1:d9 2-2/2:1 4:db",
    "1:1 4:1 3:38 5:1,2 3:1,2 3:1,2 3-e/2:1 11-10/2:1 13:1,2 3:1 4-26/2:1 2a-10/2:1 18:2a2b",
    "1:1 3:2a28 1-1:2a3f 2:1 3:45 1:47 1-8/2:1 a:2a1f 1:2a1c 1:2a1e a:a54f 5:a54b 3:a567",
    "1:a528 1:a544 4:a544 1:29f7 1:a541 5:29fd c:29e7 5:a543 5:a52a 16:a515 1:a512",
    "a7:54,74,1c79 2b-2/2:1 6:1 5-2:82 4:74 7:26 2-2:25 4:40 2-1:3f 2:1c43 1-2/2:20 1:20,3e",
    "2-2/2:20 1:20,60 2:20 1:20,39,5c 2:20,56 1-4/2:20 3:20 2:20,36 1:20,50 2:1f,20 1-1:20",
    "2:20,2f 1-1:20 2:20,1d7d 1-1:20 6:1c33 1f:8 9-16/2:1 1a:7 5:1 3:1 6-f:50 10-1:20",
    "2:20,186e 1-c/2:20 1:20,186d 2-6/2:20 8:20,1864 2:20 1:20,1862 1:20,1862,1863 1-6:20",
    "7:20,185c 1-4:20 35:1 2:1,1825 2-1c/2:1 26-34/2:1 36:f 1-c/2:1 f-5e/2:1 61-25:30",
    "b6f-25:1c60 27:1c60 6:1c60 3-2a:bc0 2d-2:bc0 2a3-4f:97d0 50-5:8 898:89c2,89c3 1:1",
    "f0:8a04 4:ee6 11:8a38 72-5e/2:1 60:1,3b 2-32/2:1 3e-5e/2:1 60-7:8 10-5:8 10-7:8 10-7:8",
    "10-5:8 11-6/2:8 f-7:8 10-1:4a 2-3:56 4-1:64 2-1:80 2-1:70 2-1:7e 4-7:8 10-7:8 10-7:8",
    "10-1:8 3:9 10:9 d-1:8 10-1:8 5:7 e:9 13f:1c 2e-f:10 23:1 333-19:1a 74a-2f:30 60:1",
    "7-4/2:1 b:1 3:1 b-62/2:1 6b-2/2:1 7:1 794e-8/2:1 c-20/2:1 34-1a/2:1 a2-c/2:1 10-3c/2:1",
    "47-2/2:1 5-8/2:1 d:1 5-2/2:1 4:30 2-12/2:1 1d:3a0 1-e/2:1 13-2/2:1 5-e/2:1 29:1 5310:1",
    "41c-19:20 4df-27:28 b0-23:28 c0-24/2:27 1-8/2:27 c-c/2:27 10-4/2:27 8:27 6eb-32:40",
    "d0-15:20 b50-1f:20 55a0-1f:20 60-18:1b 7a60-21:22"]

variable (c : Char)

def isAsciiLower : Bool := 'a' ≤ c && c ≤ 'z'

def isAsciiUpper : Bool := 'A' ≤ c && c ≤ 'Z'

def isAsciiDigit : Bool := '0' ≤ c && c ≤ '9'

def isAsciiLetter : Bool := isAsciiLower c || isAsciiUpper c

def isAscii : Bool := c.toNat < 128

/-- A letter or number; the table is asked only beyond ASCII. -/
def isAlphanumeric : Bool :=
  if isAscii c then isAsciiLetter c || isAsciiDigit c else alphanumericSet.contains c

def isUppercase : Bool :=
  if isAscii c then isAsciiUpper c else uppercaseSet.contains c

def isLowercase : Bool :=
  if isAscii c then isAsciiLower c else lowercaseSet.contains c

def isWord : Bool :=
  if isAscii c then isAsciiLetter c || isAsciiDigit c || c == '_' else wordSet.contains c

def isNameStart : Bool :=
  if isAscii c then isAsciiLetter c else nameStartSet.contains c

def isNameContinue : Bool :=
  if isAscii c then isAsciiLetter c || isAsciiDigit c || c == '_' else nameContinueSet.contains c

def asciiLower : Char :=
  if isAsciiUpper c then Char.ofNat (c.toNat + 32) else c

/-- The lower-case form; only the dotted capital I has one of two characters. -/
def lower : List Char :=
  if isAscii c then [asciiLower c]
  else if c.toNat = 0x130 then ['i', Char.ofNat 0x307]
  else match lowerMap.images c with
    | [] => [c]
    | images => images

def otherCases : List Char := caseMap.images c

end LeakTrace.Letter
