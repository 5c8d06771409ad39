import GraphApi.Text.Case

/-!
# Styles

How text on the console looks: its attributes, its colours and a link. Two styles are the same if
they are written the same way once their words are put in order.
-/

namespace GraphApi.CommandLine

inductive MarkupFault where
  | unmatched
  | badNumber
deriving DecidableEq, Repr

/-- The attributes of a style in order, each with its short words. -/
def attributes : List (String × List String) :=
  [("bold", ["b"]), ("dim", ["d"]), ("italic", ["i"]), ("underline", ["u"]), ("blink", []),
   ("blink2", []),
   ("reverse", ["r"]), ("conceal", ["c"]), ("strike", ["s"]), ("underline2", ["uu"]), ("frame", []),
   ("encircle", []), ("overline", ["o"])]

def attribute? (word : String) : Option String :=
  (attributes.find? fun entry => entry.1 = word || entry.2.contains word).map (·.1)

def colourNames : List String :=
  ["black", "red", "green", "yellow", "blue", "magenta", "cyan", "white",
   "bright_black", "bright_red",
   "bright_green", "bright_yellow", "bright_blue", "bright_magenta", "bright_cyan",
   "bright_white", "grey0", "gray0", "navy_blue", "dark_blue", "blue3", "blue1", "dark_green",
   "deep_sky_blue4", "dodger_blue3", "dodger_blue2", "green4", "spring_green4", "turquoise4",
   "deep_sky_blue3", "dodger_blue1", "green3", "spring_green3", "dark_cyan", "light_sea_green",
   "deep_sky_blue2", "deep_sky_blue1", "spring_green2", "cyan3", "dark_turquoise", "turquoise2",
   "green1", "spring_green1", "medium_spring_green", "cyan2", "cyan1", "dark_red", "deep_pink4",
   "purple4", "purple3", "blue_violet", "orange4", "grey37", "gray37", "medium_purple4",
   "slate_blue3", "royal_blue1", "chartreuse4", "dark_sea_green4", "pale_turquoise4",
   "steel_blue", "steel_blue3", "cornflower_blue", "chartreuse3", "cadet_blue", "sky_blue3",
   "steel_blue1", "pale_green3", "sea_green3", "aquamarine3", "medium_turquoise", "chartreuse2",
   "sea_green2", "sea_green1", "aquamarine1", "dark_slate_gray2", "dark_magenta", "dark_violet",
   "purple", "light_pink4", "plum4", "medium_purple3", "slate_blue1", "yellow4", "wheat4", "grey53",
   "gray53", "light_slate_grey", "light_slate_gray", "medium_purple", "light_slate_blue",
   "dark_olive_green3", "dark_sea_green", "light_sky_blue3", "sky_blue2", "dark_sea_green3",
   "dark_slate_gray3", "sky_blue1", "chartreuse1", "light_green", "pale_green1", "dark_slate_gray1",
   "red3", "medium_violet_red", "magenta3", "dark_orange3", "indian_red", "hot_pink3",
   "medium_orchid3", "medium_orchid", "medium_purple2", "dark_goldenrod", "light_salmon3",
   "rosy_brown", "grey63", "gray63", "medium_purple1", "gold3", "dark_khaki", "navajo_white3",
   "grey69", "gray69", "light_steel_blue3", "light_steel_blue", "yellow3", "dark_sea_green2",
   "light_cyan3", "light_sky_blue1", "green_yellow", "dark_olive_green2", "dark_sea_green1",
   "pale_turquoise1", "deep_pink3", "magenta2", "hot_pink2", "orchid", "medium_orchid1", "orange3",
   "light_pink3", "pink3", "plum3", "violet", "light_goldenrod3", "tan", "misty_rose3", "thistle3",
   "plum2", "khaki3", "light_goldenrod2", "light_yellow3", "grey84", "gray84", "light_steel_blue1",
   "yellow2", "dark_olive_green1", "honeydew2", "light_cyan1", "red1", "deep_pink2", "deep_pink1",
   "magenta1", "orange_red1", "indian_red1", "hot_pink", "dark_orange", "salmon1",
   "light_coral", "pale_violet_red1", "orchid2", "orchid1", "orange1", "sandy_brown",
   "light_salmon1", "light_pink1", "pink1", "plum1", "gold1", "navajo_white1", "misty_rose1",
   "thistle1", "yellow1", "light_goldenrod1", "khaki1", "wheat1", "cornsilk1", "grey100", "gray100",
   "grey3", "gray3", "grey7", "gray7", "grey11", "gray11", "grey15", "gray15", "grey19", "gray19",
   "grey23", "gray23", "grey27", "gray27", "grey30", "gray30", "grey35", "gray35", "grey39",
   "gray39", "grey42", "gray42", "grey46", "gray46", "grey50", "gray50", "grey54", "gray54",
   "grey58", "gray58", "grey62", "gray62", "grey66", "gray66", "grey70", "gray70",
   "grey74", "gray74", "grey78", "gray78", "grey82", "gray82", "grey85", "gray85", "grey89",
   "gray89", "grey93", "gray93"]

def bracketed? (start word : Chars) : Option Chars :=
  if start.isPrefixOf word && word.getLast? = some ')' then some ((word.drop start.length).dropLast)
    else none

def digitsNumber? (digits : Chars) : Option Nat :=
  if digits.isEmpty then none
  else digits.foldlM (fun n c => (Text.digitValue? c).map fun digit => 10 * n + digit) 0

/-- Whether three parts between commas are numbers for red, green and blue. Parts that are no
numbers are refused. -/
def isTriple (inside : Chars) : Except MarkupFault Bool := do
  let parts := inside.splitOn ','
  if inside.isEmpty || inside.any (fun c => (Text.digitValue? c).isNone && c ≠ ',') ||
    parts.length ≠ 3 then
    return false
  else
    let numbers ← parts.mapM fun part =>
      match digitsNumber? part with
      | some n => .ok n
      | none => .error .badNumber
    return numbers.all (· ≤ 255)

/-- Whether a word in small letters is a colour: a name, six hexadecimal digits, a number or three
numbers. -/
def isColour (word : String) : Except MarkupFault Bool :=
  let cs := word.toList
  let isHex := fun (c : Char) => c.isDigit || ('a' ≤ c && c ≤ 'f')
  if word = "default" || colourNames.contains word then .ok true
  else
    match cs with
    | '#' :: digits => .ok (digits.length = 6 && digits.all isHex)
    | _ =>
      match bracketed? "color(".toList cs, bracketed? "rgb(".toList cs with
      | some inside, _ =>
        .ok (!inside.isEmpty && inside.length ≤ 3 && inside.all Char.isDigit &&
          (digitsNumber? inside).any (· ≤ 255))
      | none, some inside => isTriple inside
      | none, none => .ok false

structure Style where
  switches : List (String × Bool) := []
  colour : Option String := none
  background : Option String := none
  link : Option String := none

def Style.turn (style : Style) (feature : String) (isOn : Bool) : Style :=
  { style with switches := style.switches.filter (·.1 ≠ feature) ++ [(feature, isOn)] }

def Style.read? (style : Style) : List String → Except MarkupFault (Option Style)
  | [] => .ok (some style)
  | word :: rest =>
    let small := Text.lower word
    if small = "on" then
      match rest with
      | [] => .ok none
      | colour :: rest => do
        if ← isColour (Text.lower colour) then Style.read? { style with background := some (Text.lower colour) } rest
        else return none
    else if small = "not" then
      match rest with
      | [] => .ok none
      | name :: rest =>
        match attribute? name with
        | some feature => Style.read? (style.turn feature false) rest
        | none => .ok none
    else if small = "link" then
      match rest with
      | [] => .ok none
      | target :: rest => Style.read? { style with link := some target } rest
    else
      match attribute? small with
      | some feature => Style.read? (style.turn feature true) rest
      | none => do
        if ← isColour small then Style.read? { style with colour := some small } rest
        else return none

def Style.words (style : Style) : List String :=
  attributes.flatMap (fun entry => match style.switches.lookup entry.1 with
    | some true => [entry.1]
    | some false => ["not", entry.1]
    | none => []) ++
  style.colour.toList ++ (style.background.map fun colour => ["on", colour]).getD [] ++
  (style.link.map fun target => ["link", target]).getD []

def Style.text (style : Style) : String :=
  if style.words.isEmpty then "none" else " ".intercalate style.words

def splitWords : Nat → Chars → List String
  | 0, _ => []
  | limit + 1, text =>
    let rest := text.dropWhile Text.isBlank
    let word := rest.takeWhile (!Text.isBlank ·)
    if word.isEmpty then [] else String.ofList word :: splitWords limit (rest.drop word.length)

/-- The one way to write what a text says of a style; a text that says nothing of the kind is only
put in small letters. -/
def normalStyle (text : String) : Except MarkupFault String := do
  let trimmed := String.ofList (Text.trim text.toList)
  if trimmed = "none" then return "none"
  match ← Style.read? {} (splitWords text.length text.toList) with
  | some style => return style.text
  | none => return Text.lower trimmed

end GraphApi.CommandLine
