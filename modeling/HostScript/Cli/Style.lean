import HostScript.Number.Reading
import HostScript.Text.Case

/-!
# Styles of output

A style is a list of words: attributes, which may be turned off, a colour, a colour after `on` for
the background, and the target of a link. Two lists of words are the same style if they ask for the
same, and a style has one name for all of them.
-/

namespace HostScript.Cli

/-- The attributes in the order in which the name of a style has them. -/
def attributes : List String := [
  "bold", "dim", "italic", "underline", "blink", "blink2", "reverse", "conceal", "strike",
  "underline2", "frame", "encircle", "overline"]

/-- The short words for attributes. -/
def shortAttributes : List (String × String) := [
  ("b", "bold"), ("d", "dim"), ("i", "italic"), ("u", "underline"), ("r", "reverse"),
  ("c", "conceal"), ("s", "strike"), ("uu", "underline2"), ("o", "overline")]

/-- The attribute that a word stands for. -/
def attribute? (word : Text) : Option String :=
  (shortAttributes.lookup word.toStr).orElse fun _ => attributes.find? (·.toList == word)

/-- The names of colours, apart from the shades of grey. -/
def colourNames : List String := [
  "default black red green yellow blue magenta cyan white bright_black bright_red bright_green",
  "bright_yellow bright_blue bright_magenta bright_cyan bright_white navy_blue dark_blue blue3",
  "blue1 dark_green deep_sky_blue4 dodger_blue3 dodger_blue2 green4 spring_green4 turquoise4",
  "deep_sky_blue3 dodger_blue1 green3 spring_green3 dark_cyan light_sea_green deep_sky_blue2",
  "deep_sky_blue1 spring_green2 cyan3 dark_turquoise turquoise2 green1 spring_green1",
  "medium_spring_green cyan2 cyan1 dark_red deep_pink4 purple4 purple3 blue_violet orange4",
  "medium_purple4 slate_blue3 royal_blue1 chartreuse4 dark_sea_green4 pale_turquoise4",
  "steel_blue steel_blue3 cornflower_blue chartreuse3 cadet_blue sky_blue3 steel_blue1",
  "pale_green3 sea_green3 aquamarine3 medium_turquoise chartreuse2 sea_green2 sea_green1",
  "aquamarine1 dark_magenta dark_violet purple light_pink4 plum4 medium_purple3 slate_blue1",
  "yellow4 wheat4 medium_purple light_slate_blue dark_olive_green3 dark_sea_green",
  "light_sky_blue3 sky_blue2 dark_sea_green3 sky_blue1 chartreuse1 light_green pale_green1 red3",
  "medium_violet_red magenta3 dark_orange3 indian_red hot_pink3 medium_orchid3 medium_orchid",
  "medium_purple2 dark_goldenrod light_salmon3 rosy_brown medium_purple1 gold3 dark_khaki",
  "navajo_white3 light_steel_blue3 light_steel_blue yellow3 dark_sea_green2 light_cyan3",
  "light_sky_blue1 green_yellow dark_olive_green2 dark_sea_green1 pale_turquoise1 deep_pink3",
  "magenta2 hot_pink2 orchid medium_orchid1 orange3 light_pink3 pink3 plum3 violet",
  "light_goldenrod3 tan misty_rose3 thistle3 plum2 khaki3 light_goldenrod2 light_yellow3",
  "light_steel_blue1 yellow2 dark_olive_green1 honeydew2 light_cyan1 red1 deep_pink2 deep_pink1",
  "magenta1 orange_red1 indian_red1 hot_pink dark_orange salmon1 light_coral pale_violet_red1",
  "orchid2 orchid1 orange1 sandy_brown light_salmon1 light_pink1 pink1 plum1 gold1",
  "navajo_white1 misty_rose1 thistle1 yellow1 light_goldenrod1 khaki1 wheat1 cornsilk1",
  "dark_slate_gray2 light_slate_grey light_slate_gray dark_slate_gray3 dark_slate_gray1"]

/-- The shades of grey that have a name. -/
def greyShades : List Nat := [
  0, 3, 7, 11, 15, 19, 23, 27, 30, 35, 37, 39, 42, 46, 50, 53, 54, 58, 62, 63, 66, 69, 70, 74,
  78, 82, 84, 85, 89, 93, 100]

/-- Whether a word is the name of a colour. -/
def isColourName (word : Text) : Bool :=
  (colourNames.flatMap fun l => Text.words l.toList).contains word
    || greyShades.any fun n => word == "grey" ++ Text.ofNat n || word == "gray" ++ Text.ofNat n

/-- What stands in parentheses after a word. -/
def inParentheses? (word : String) (t : Text) : Option Text :=
  if t.startsWith (word.toList ++ "(") && t.endsWith ")" then
    some (t.slice (word.length + 1) (t.length - 1))
  else none

/-- Whether a text gives the three parts of a colour. -/
def areParts (t : Text) : Outcome Bool :=
  match Text.splitOn ',' t with
  | [red, green, blue] => do
    let parts ← [red, green, blue].mapM Number.readInt
    pure (parts.all (· ≤ 255))
  | _ => .ok false

/-- Whether a word gives a colour by six hexadecimal digits, a number or three parts. -/
def isColourCode (t : Text) : Outcome Bool :=
  match t with
  | '#' :: digits => .ok (digits.length == 6 && digits.all isHexDigit)
  | _ =>
    match inParentheses? "color" t, inParentheses? "rgb" t with
    | some n, _ => .ok (!n.isEmpty && n.length ≤ 3 && n.all Char.isDigit && basedValue 10 n ≤ 255)
    | none, some parts =>
      if !parts.isEmpty && parts.all (isDigit ||| among ",") then areParts parts else .ok false
    | none, none => .ok false

/-- Whether a word is a colour. -/
def isColour (word : Text) : Outcome Bool :=
  if isColourName word then .ok true else isColourCode word

/-- What a list of words asks for. -/
structure Style where
  /-- The attributes that are set, and whether they are on; the last word on one counts. -/
  attributes : List (String × Bool) := []
  colour : Option Text := none
  background : Option Text := none
  link : Option Text := none

namespace Style

/-- Reads words on top of a style; none if they make no sense. -/
def read? (s : Style) : List Text → Outcome (Option Style)
  | [] => .ok (some s)
  | [word] =>
    match attribute? (lower word) with
    | some a => .ok (some { s with attributes := (a, true) :: s.attributes })
    | none => do
      if ← isColour (lower word) then pure (some { s with colour := some (lower word) })
      else pure none
  | word :: next :: rest =>
    match (lower word).toStr with
    | "on" => do
      if ← isColour (lower next) then read? { s with background := some (lower next) } rest
      else pure none
    | "not" =>
      match attribute? next with
      | some a => read? { s with attributes := (a, false) :: s.attributes } rest
      | none => .ok none
    | "link" => read? { s with link := some next } rest
    | _ =>
      match attribute? (lower word) with
      | some a => read? { s with attributes := (a, true) :: s.attributes } (next :: rest)
      | none => do
        if ← isColour (lower word) then
          read? { s with colour := some (lower word) } (next :: rest)
        else pure none

/-- The name of a style. -/
def name (s : Style) : Text :=
  let words := (Cli.attributes.filterMap fun a =>
      (s.attributes.lookup a).map fun on => if on then a.toList else "not " ++ a.toList)
    ++ s.colour.toList ++ (s.background.map fun (c : Text) => "on " ++ c).toList
    ++ (s.link.map fun (l : Text) => "link " ++ l).toList
  if words.isEmpty then "none" else Text.join " " words

end Style

/-- The name of the style that a text asks for; a text that is no style is its own name. -/
def styleName (t : Text) : Outcome Text :=
  if t.trim == "none".toList then .ok t.trim
  else do
    match ← Style.read? {} t.words with
    | some s => pure s.name
    | none => pure (lower t.trim)

end HostScript.Cli
