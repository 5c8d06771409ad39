import GraphApi.Text.Character

/-!
# Letter case

Most letters above ASCII with a case come in pairs, whose capitals and small letters stand by turns
or in two rows. A few others have a capital or a small letter of their own, and the capitals of some
are several characters.
-/

namespace GraphApi.Text

/-! ## Marks that letter case looks through -/

def ignorableTurns : List Nat :=
  [39,1,6,1,11,1,35,1,1,1,71,1,4,1,1,1,4,1,2,2,503,192,4,2,4,1,9,2,1,1,251,7,207,1,5,1,49,45,1,1,1,2,1,2,1,1,44,1,11,6,
   10,11,1,1,35,1,10,21,16,1,101,8,1,10,1,4,33,1,1,1,30,27,91,11,58,11,4,1,2,1,24,24,43,3,44,1,7,2,6,8,41,58,55,1,1,1,
   4,8,4,1,3,7,10,2,13,1,15,1,58,1,4,4,8,1,20,2,26,1,2,2,57,1,4,2,4,2,2,3,3,1,30,2,3,1,11,2,57,1,4,5,1,2,4,1,20,2,22,6,
   1,1,58,1,2,1,1,4,8,1,7,2,11,2,30,1,61,1,12,1,50,1,3,1,55,1,1,3,5,3,1,4,7,2,11,2,29,1,58,1,2,1,6,1,5,2,20,2,28,2,57,
   2,4,4,8,1,20,2,29,1,72,1,7,3,1,1,90,1,2,7,11,9,98,1,2,9,9,1,1,6,74,2,27,1,1,1,1,1,55,14,1,5,1,2,5,11,1,36,9,1,102,4,
   1,6,1,2,2,2,25,2,4,3,16,4,13,1,2,2,6,1,15,1,94,1,608,3,946,3,29,2,30,2,30,2,64,2,1,7,8,1,2,11,3,1,5,1,45,5,51,1,65,
   2,34,1,118,3,4,2,9,1,6,3,219,2,2,1,58,1,1,7,1,1,1,1,2,8,6,10,2,1,39,1,8,31,49,4,48,1,1,5,1,1,5,1,40,9,12,2,32,4,2,2,
   1,3,56,1,1,2,3,1,1,3,58,8,2,2,64,6,82,3,1,13,1,7,4,1,6,1,3,2,50,63,13,1,34,101,445,1,1,3,11,3,13,3,13,3,13,2,12,5,8,
   2,10,1,2,1,2,5,49,5,1,10,1,1,13,1,16,13,51,33,2955,2,113,3,125,1,15,1,96,32,47,1,469,1,36,4,3,5,5,1,93,6,93,3,28438,
   1,1250,6,270,1,98,4,1,10,1,1,28,4,80,2,14,34,78,1,23,3,103,3,3,2,8,1,3,1,4,1,25,2,5,1,151,2,26,18,13,1,38,8,25,11,
   46,3,48,1,2,4,2,2,17,1,21,2,66,6,2,2,2,2,12,1,8,1,35,1,11,1,51,1,1,3,2,2,5,2,1,1,27,1,14,2,5,2,1,1,100,5,9,3,121,1,
   2,1,4,1,20272,1,147,17,573,16,3,1,12,16,34,1,2,1,169,1,7,1,6,1,11,1,35,1,1,1,47,1,45,2,67,1,21,3,513,1,226,1,149,5,
   1029,6,1,42,1,9,582,3,1,2,5,4,40,3,4,1,165,2,573,4,387,2,153,11,49,4,123,1,54,15,41,1,2,2,10,3,49,4,2,2,2,1,4,1,10,
   1,50,3,36,5,1,8,62,1,12,2,52,9,10,4,2,1,95,3,2,1,1,2,6,1,160,1,3,8,21,2,57,2,3,1,37,7,3,5,195,8,2,3,1,1,23,1,84,6,1,
   1,4,2,1,2,238,4,6,2,1,2,27,2,85,8,2,1,1,2,106,1,1,1,2,6,1,1,101,3,2,4,1,5,259,9,1,2,256,2,1,1,4,1,144,4,2,2,4,1,32,
   10,40,6,2,4,8,1,9,6,2,3,46,13,1,2,406,7,1,6,1,1,82,22,2,7,1,2,1,2,122,6,3,1,1,2,1,7,1,1,72,2,3,1,1,1,347,2,5435,9,
   14007,5,59,7,9,4,1035,1,63,17,64,2,1,2,16395,4,1,7,1,2,3230,2,1,4,4700,46,2,23,544,3,9,16,2,7,30,4,148,3,1979,55,4,
   50,8,1,14,1,22,5,1,15,1360,7,1,17,2,7,1,2,1,5,261,14,368,1,61,4,1504,7,109,8,2735,5,789505,1,30,96,128,240]

def isIgnorable (c : Char) : Bool :=
  inTurns ignorableTurns c.toNat

/-- Ranges of pairs, each capital before its small letter. -/
def alternating : List (Nat × Nat) :=
  [(256,303), (306,311), (313,328), (330,375), (377,382), (386,389), (391,392), (395,396),
   (401,402), (408,409),
   (416,421), (423,424), (428,429), (431,432), (435,438), (440,441), (444,445), (461,476),
   (478,495), (500,501), (504,543), (546,563), (571,572), (577,578), (582,591), (880,883),
   (886,887), (984,1007), (1015,1016), (1018,1019), (1120,1153), (1162,1215), (1217,1230),
   (1232,1327), (7680,7829), (7840,7935), (8579,8580), (11360,11361), (11367,11372), (11378,11379),
   (11381,11382), (11392,11491), (11499,11502), (11506,11507), (42560,42605), (42624,42651),
   (42786,42799), (42802,42863), (42873,42876), (42878,42887), (42891,42892), (42896,42899),
   (42902,42921), (42932,42947), (42951,42954), (42960,42961), (42966,42969), (42997,42998)]

def letterPairs : List (Nat × Nat) :=
  [(376,255), (385,595), (390,596), (398,477), (399,601), (400,603), (403,608), (404,611),
   (406,617), (407,616),
   (412,623), (413,626), (415,629), (422,640), (425,643), (430,648), (439,658), (452,454),
   (455,457), (458,460), (497,499), (502,405), (503,447), (544,414), (570,11365), (573,410),
   (574,11366), (579,384), (580,649), (581,652), (895,1011), (902,940), (908,972), (975,983),
   (1017,1010), (1216,1231), (4295,11559), (4301,11565), (8025,8017), (8027,8019), (8029,8021),
   (8031,8023), (8172,8165), (8498,8526), (11362,619), (11363,7549), (11364,637), (11373,593),
   (11374,625), (11375,592), (11376,594), (42877,7545), (42893,613), (42922,614), (42923,604),
   (42924,609), (42925,620), (42926,618), (42928,670), (42929,647), (42930,669), (42931,43859),
   (42948,42900), (42949,642), (42950,7566)]

def letterRows : List (Nat × Nat × Nat) :=
  [(192,214,224), (216,222,248), (393,394,598), (433,434,650), (904,906,941), (910,911,973), (913,929,945),
   (931,939,963), (1021,1023,891), (1024,1039,1104), (1040,1071,1072), (1329,1366,1377), (4256,4293,11520),
   (5024,5103,43888), (5104,5109,5112), (7312,7354,4304), (7357,7359,4349), (7944,7951,7936), (7960,7965,7952),
   (7976,7983,7968), (7992,7999,7984), (8008,8013,8000), (8040,8047,8032), (8120,8121,8112), (8122,8123,8048),
   (8136,8139,8050), (8152,8153,8144), (8154,8155,8054), (8168,8169,8160), (8170,8171,8058), (8184,8185,8056),
   (8186,8187,8060), (8544,8559,8560), (9398,9423,9424), (11264,11311,11312), (11390,11391,575), (65313,65338,65345),
   (66560,66599,66600), (66736,66771,66776), (66928,66938,66967), (66940,66954,66979), (66956,66962,66995),
   (66964,66965,67003), (68736,68786,68800), (71840,71871,71872), (93760,93791,93792), (125184,125217,125218)] ++
  letterPairs.map fun (capital, small) => (capital, capital, small)

def strayCapitals : List (Nat × Nat) :=
  [(181,924), (305,73), (383,83), (453,452), (456,455), (459,458), (498,497), (837,921),
   (962,931), (976,914),
   (977,920), (981,934), (982,928), (1008,922), (1009,929), (1013,917), (7296,1042),
   (7297,1044), (7298,1054), (7299,1057), (7300,1058), (7301,1058), (7302,1066), (7303,1122),
   (7304,42570), (7835,7776), (8126,921)]

def straySmalls : List (Nat × Nat) :=
  [(453,454), (456,457), (459,460), (498,499), (1012,952), (7838,223), (8124,8115),
   (8140,8131), (8188,8179), (8486,969), (8490,107), (8491,229)] ++
  [8072, 8088, 8104].flatMap fun first => (List.range 8).map fun place =>
    (first + place, first + place - 8)

def iotaRows : List (Nat × Nat) :=
  [(8064, 7944), (8072, 7944), (8080, 7976), (8088, 7976), (8096, 8040), (8104, 8040)]

def upperExpansions : List (Nat × List Nat) :=
  [(223,[83,83]), (329,[700,78]), (496,[74,780]), (912,[921,776,769]), (944,[933,776,769]), (1415,[1333,1362]),
   (7830,[72,817]), (7831,[84,776]), (7832,[87,778]), (7833,[89,778]), (7834,[65,702]), (8016,[933,787]),
   (8018,[933,787,768]), (8020,[933,787,769]), (8022,[933,787,834]), (8114,[8122,921]), (8115,[913,921]),
   (8116,[902,921]), (8118,[913,834]), (8119,[913,834,921]), (8124,[913,921]), (8130,[8138,921]), (8131,[919,921]),
   (8132,[905,921]), (8134,[919,834]), (8135,[919,834,921]), (8140,[919,921]), (8146,[921,776,768]),
   (8147,[921,776,769]), (8150,[921,834]), (8151,[921,776,834]), (8162,[933,776,768]), (8163,[933,776,769]),
   (8164,[929,787]), (8166,[933,834]), (8167,[933,776,834]), (8178,[8186,921]), (8179,[937,921]), (8180,[911,921]),
   (8182,[937,834]), (8183,[937,834,921]), (8188,[937,921]), (64256,[70,70]), (64257,[70,73]), (64258,[70,76]),
   (64259,[70,70,73]), (64260,[70,70,76]), (64261,[83,84]), (64262,[83,84]), (64275,[1348,1350]), (64276,[1348,1333]),
   (64277,[1348,1339]), (64278,[1358,1350]), (64279,[1348,1341])] ++
  iotaRows.flatMap fun (first, capital) => (List.range 8).map fun place => (first + place, [capital + place, 921])

def capitalCode? (code : Nat) : Option Nat :=
  if alternating.any fun (first, last) => first ≤ code && code ≤ last && (code - first) % 2 == 1 then some (code - 1)
  else match letterRows.find? fun (first, last, small) => small ≤ code && code ≤ small + (last - first) with
    | some (first, _, small) => some (first + (code - small))
    | none => strayCapitals.lookup code

def smallCode? (code : Nat) : Option Nat :=
  if alternating.any fun (first, last) => first ≤ code && code ≤ last && (code - first) % 2 == 0 then some (code + 1)
  else match letterRows.find? fun (first, last, _) => first ≤ code && code ≤ last with
    | some (first, _, small) => some (small + (code - first))
    | none => straySmalls.lookup code

def upperChar (c : Char) : Chars :=
  if c.toNat < 128 then [c.toUpper]
  else match upperExpansions.lookup c.toNat with
    | some codes => codes.map Char.ofNat
    | none => [((capitalCode? c.toNat).map Char.ofNat).getD c]

/-- The lower case of a character on its own. The capital with a dot keeps the dot. -/
def lowerChar (c : Char) : Chars :=
  if c.toNat < 128 then [c.toLower]
  else if c.toNat = 304 then [Char.ofNat 105, Char.ofNat 775]
  else [((smallCode? c.toNat).map Char.ofNat).getD c]

def hasCapital (code : Nat) : Bool :=
  (capitalCode? code).isSome || (upperExpansions.lookup code).isSome

def hasSmall (code : Nat) : Bool :=
  (smallCode? code).isSome || code == 304

def loneCapitalTurns : List Nat :=
  [978,3,7469,1,4,1,3,3,2,3,2,1,3,5,6,1,3,1,3,2,2,2,1,1,10,2,5,1,111290,26,26,26,26,26,26,1,1,2,2,1,2,2,2,4,1,8,26,26,
   26,2,1,4,2,8,1,7,27,2,1,4,1,5,1,1,3,7,27,26,26,26,26,26,26,26,26,26,26,26,30,25,33,25,33,25,33,25,33,25,33,1,6501,
   26,6,26,6,26]

def loneSmallTurns : List Nat :=
  [170,1,15,1,125,1,84,1,13,1,14,2,14,1,3,1,98,1,18,6,27,1,2,1,1,1,2,3,2,1,1,1,2,1,5,2,1,1,2,2,1,7,1,2,1,1,2,3,6,5,1,1,
   1,8,2,26,7,2,30,5,149,1,129,1,355,1,39,1,6007,121,1,3,1,16,1,49,220,2,1,1,465,1,13,1,16,13,109,1,3,2,3,1,27,1,4,1,4,
   1,2,2,8,4,2855,1,2,1,2,7,102,1,31159,2,146,2,62,9,21,1,6,1,25,1,35,1,1,1,34,3,821,35,1,7,1,13,23575,1,2,3,1,42,1,9,
   52319,26,26,7,1,18,26,26,26,4,1,1,1,7,1,11,26,26,26,26,26,26,26,26,26,26,26,26,26,26,26,26,26,28,28,25,1,6,26,25,1,
   6,26,25,1,6,26,25,1,6,26,25,1,6,1,1,1844,10,1,20]

def isUpper (c : Char) : Bool :=
  if c.toNat < 128 then c.isUpper
  else hasSmall c.toNat && !hasCapital c.toNat || inTurns loneCapitalTurns c.toNat

def isLower (c : Char) : Bool :=
  if c.toNat < 128 then c.isLower
  else hasCapital c.toNat && !hasSmall c.toNat || inTurns loneSmallTurns c.toNat

/-- Whether a character is a title-case letter, which is neither upper nor lower case. -/
def isTitle (c : Char) : Bool :=
  hasCapital c.toNat && hasSmall c.toNat

def upperChars (cs : Chars) : Chars :=
  cs.flatMap upperChar

def upper (s : String) : String :=
  String.ofList (upperChars s.toList)

def isCased (c : Char) : Bool :=
  isUpper c || isLower c || isTitle c

def startsCased (cs : Chars) : Bool :=
  ((cs.dropWhile isIgnorable).head?.map isCased).getD false

/-- The lower case of a text that follows a cased letter or not, marks not counted. A capital sigma
at the end of a word gets its final form. -/
def lowerAfter (cased : Bool) : Chars → Chars
  | [] => []
  | c :: rest =>
    let image := if c = 'Σ' then [if cased && !startsCased rest then 'ς' else 'σ'] else lowerChar c
    image ++ lowerAfter (if isIgnorable c then cased else isCased c) rest

def lower (s : String) : String :=
  String.ofList (lowerAfter false s.toList)

/-- Code points that have a case but are no letters: an accent, Roman numerals, and letters in
circles and squares. -/
def casedSignTurns : List Nat :=
  [837,1,7706,32,822,52,117830,26,6,26,6,26]

def isCasedLetter (c : Char) : Bool :=
  (isUpper c || isLower c) && !inTurns casedSignTurns c.toNat

def isUpperText (cs : Chars) : Bool :=
  cs.any isUpper && cs.all fun c => !isLower c && !isTitle c

/-! ## Letters that differ in case only -/

/-- The small letter of a character; of a longer form its first character. -/
def smallLetter (c : Char) : Char :=
  (lowerChar c).headD c

def letterForms : List (List Nat) :=
  [[0x69,0x131], [0x73,0x17f], [0xb5,0x3bc], [0x345,0x3b9,0x1fbe], [0x390,0x1fd3], [0x3b0,0x1fe3],
   [0x3b2,0x3d0],
   [0x3b5,0x3f5], [0x3b8,0x3d1], [0x3ba,0x3f0], [0x3c0,0x3d6], [0x3c1,0x3f1], [0x3c2,0x3c3],
   [0x3c6,0x3d5], [0x432,0x1c80], [0x434,0x1c81], [0x43e,0x1c82], [0x441,0x1c83],
   [0x442,0x1c84,0x1c85], [0x44a,0x1c86], [0x463,0x1c87], [0x1c88,0xa64b], [0x1e61,0x1e9b],
   [0xfb05,0xfb06]]

def sameLetter (c d : Char) : Bool :=
  let first := smallLetter c
  let second := smallLetter d
  first == second ||
    letterForms.any fun forms => forms.contains first.toNat && forms.contains second.toNat

def dropLetters? : Chars → Chars → Option Chars
  | [], text => some text
  | _ :: _, [] => none
  | c :: word, d :: text => if sameLetter c d then dropLetters? word text else none

/-! ## Names in capitals -/

def isDelimiter (c : Char) : Bool :=
  c = ' ' || c = '-' || c = '_'

def isPunctuation (c : Char) : Bool :=
  let n := c.toNat
  (33 ≤ n && n ≤ 47) || (58 ≤ n && n ≤ 64) || (91 ≤ n && n ≤ 96) || (123 ≤ n && n ≤ 126)

def trimDelimiters (cs : Chars) : Chars :=
  ((cs.dropWhile isDelimiter).reverse.dropWhile isDelimiter).reverse

/-- One space for every run of delimiters; `after` tells whether a delimiter came just before. -/
def collapse (after : Bool) : Chars → Chars
  | [] => []
  | c :: rest =>
    if isDelimiter c then (if after then collapse true rest else ' ' :: collapse true rest)
    else c :: collapse false rest

def wordsOf (cs : Chars) : Chars :=
  collapse false ((trimDelimiters cs).filter fun c => isDelimiter c || !isPunctuation c)

/-- Capitals for a text in mixed case: a space or a capital after a letter starts a word. -/
def capitals (previous : Option Char) : Chars → Chars
  | [] => []
  | ' ' :: c :: rest => '_' :: upperChar c ++ capitals (some ' ') rest
  | ' ' :: [] => ['_']
  | c :: rest =>
    let joined := isUpper c && (previous.map isCasedLetter).getD false
    (if joined then ['_', c] else upperChar c) ++ capitals (some c) rest

def macroCase (name : String) : String :=
  let cs := wordsOf name.toList
  String.ofList (if isUpperText cs then cs.map fun c => if c = ' ' then '_' else c
    else capitals none cs)

def capitalize (name : String) : String :=
  match name.toList with
  | [] => ""
  | c :: rest => String.ofList (upperChar c ++ rest)

end GraphApi.Text
