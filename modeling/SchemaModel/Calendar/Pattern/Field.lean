import SchemaModel.Calendar.Fault
import SchemaModel.Calendar.Pattern.Shape

/-!
Date patterns: text with fields announced by a percent sign. This module holds the fields, the
shape of each, and the reading of a pattern into its items.
-/
namespace SchemaModel.Pattern

/-- What a field of a pattern says about a date. -/
inductive Field
  | weekdayShort | weekdayLong | monthShort | monthLong | day | fraction | isoYear | hour
  | hourOfHalf | dayOfYear | month | minute | half | second | isoWeekday | sundayWeek | isoWeek
  | sundayBased | mondayWeek | shortYear | year | offset | zone
  deriving DecidableEq, Repr

/-- The names of the days from Monday on, in lower case. -/
def weekdayNames : List String :=
  ["monday", "tuesday", "wednesday", "thursday", "friday", "saturday", "sunday"]

/-- The names of the months from January on, in lower case. -/
def monthNames : List String :=
  ["january", "february", "march", "april", "may", "june", "july", "august", "september",
   "october", "november", "december"]

/-- The three letters that stand for a name. -/
def shortNames (names : List String) : List String :=
  names.map fun n => String.ofList (n.toList.take 3)

/-- One of several names, longer ones first. -/
def nameShape (names : List String) : Shape :=
  .choice ((names.mergeSort fun a b => b.length ≤ a.length).map .word)

namespace Field
open Shape

/-- A digit between two others, then any digit. -/
def tens (lo hi : Char) : Shape := .seq (between lo hi) digit

/-- A fixed digit, then one between two others. -/
def after (c lo hi : Char) : Shape := .seq (char c) (between lo hi)

def weekShape : Shape := choice [after '5' '0' '3', tens '0' '4', digit]

/-- The shape that the text of a field has. -/
def shape : Field → Shape
  | .weekdayShort => nameShape (shortNames weekdayNames)
  | .weekdayLong => nameShape weekdayNames
  | .monthShort => nameShape (shortNames monthNames)
  | .monthLong => nameShape monthNames
  | .day => choice [after '3' '0' '1', tens '1' '2', after '0' '1' '9', between '1' '9',
      after ' ' '1' '9']
  | .fraction => upTo (between '0' '9') 5
  | .isoYear | .year => sequence [digit, digit, digit, digit]
  | .hour => choice [after '2' '0' '3', tens '0' '1', digit]
  | .hourOfHalf | .month => choice [after '1' '0' '2', after '0' '1' '9', between '1' '9']
  | .dayOfYear => choice
      [.seq (char '3') (after '6' '0' '6'), .seq (char '3') (tens '0' '5'),
       .seq (between '1' '2') (.seq digit digit), .seq (char '0') (tens '1' '9'),
       .seq (char '0') (after '0' '1' '9'), tens '1' '9', after '0' '1' '9', between '1' '9']
  | .minute => choice [tens '0' '5', digit]
  | .half => nameShape ["am", "pm"]
  | .second => choice [after '6' '0' '1', tens '0' '5', digit]
  | .isoWeekday => between '1' '7'
  | .sundayWeek | .mondayWeek => weekShape
  | .isoWeek => choice [after '5' '0' '3', after '0' '1' '9', tens '1' '4', digit]
  | .sundayBased => between '0' '6'
  | .shortYear => .seq digit digit
  | .offset => choice
      [sequence [.alt (char '+') (char '-'), digit, digit, optional (char ':'), tens '0' '5',
         optional (sequence [optional (char ':'), tens '0' '5',
           optional (.seq (char '.') (upTo digit 5))])],
       char 'Z']
  | .zone => nameShape ["utc", "gmt"]

end Field

/-- An item of a pattern: a character to be matched without regard to case, a run of blanks, or a
field. -/
inductive Item
  | letter (c : Char)
  | blanks
  | field (f : Field)
  deriving DecidableEq, Repr

/-- The items that a directive stands for; some directives abbreviate several fields. -/
def directive? : Char → Option (List Item)
  | 'a' => some [.field .weekdayShort]
  | 'A' => some [.field .weekdayLong]
  | 'b' => some [.field .monthShort]
  | 'B' => some [.field .monthLong]
  | 'c' => some [.field .weekdayShort, .blanks, .field .monthShort, .blanks, .field .day, .blanks,
      .field .hour, .letter ':', .field .minute, .letter ':', .field .second, .blanks, .field .year]
  | 'd' => some [.field .day]
  | 'f' => some [.field .fraction]
  | 'G' => some [.field .isoYear]
  | 'H' => some [.field .hour]
  | 'I' => some [.field .hourOfHalf]
  | 'j' => some [.field .dayOfYear]
  | 'm' => some [.field .month]
  | 'M' => some [.field .minute]
  | 'p' => some [.field .half]
  | 'S' => some [.field .second]
  | 'u' => some [.field .isoWeekday]
  | 'U' => some [.field .sundayWeek]
  | 'V' => some [.field .isoWeek]
  | 'w' => some [.field .sundayBased]
  | 'W' => some [.field .mondayWeek]
  | 'x' => some [.field .month, .letter '/', .field .day, .letter '/', .field .shortYear]
  | 'X' => some [.field .hour, .letter ':', .field .minute, .letter ':', .field .second]
  | 'y' => some [.field .shortYear]
  | 'Y' => some [.field .year]
  | 'z' => some [.field .offset]
  | 'Z' => some [.field .zone]
  | '%' => some [.letter '%']
  | _ => none

/-- Characters that are never the name of a directive and are reported as the percent sign in front
of them. -/
def isReserved (c : Char) : Bool := "\\.^$*+?()\x7b\x7d[]|".toList.contains c || Text.isBlank c

/-- The items of a pattern. A run of blanks is one item; `afterBlank` says whether such a run has
just begun. -/
def itemsFrom (pattern : String) (afterBlank : Bool) : List Char → Except DateFault (List Item)
  | [] => .ok []
  | ['%'] => .error (.lonePercent pattern)
  | '%' :: c :: cs =>
    if isReserved c then .error (.directive '%' pattern)
    else match directive? c with
      | none => .error (.directive c pattern)
      | some items => (itemsFrom pattern false cs).map (items ++ ·)
  | c :: cs =>
    if Text.isBlank c then
      if afterBlank then itemsFrom pattern true cs
      else (itemsFrom pattern true cs).map (.blanks :: ·)
    else (itemsFrom pattern false cs).map (.letter c :: ·)

def items (pattern : String) : Except DateFault (List Item) :=
  itemsFrom pattern false pattern.toList

/-- The fields among the items, in order. -/
def fields (items : List Item) : List Field :=
  items.filterMap fun
    | .field f => some f
    | _ => none

/-- The rests after one blank or more, as many blanks as possible first. -/
def blankRests : List Char → List (List Char)
  | [] => []
  | c :: cs => if Text.isBlank c then blankRests cs ++ [cs] else []

/-- A field with the text read for it. -/
abbrev Reading := Field × List Char

/-- Reads the items at the start of a text and gives the readings of the fields with the rest of the
text. Where an item has several readings, the first that lets the others be read is taken. -/
def read? : List Item → List Char → Option (List Reading × List Char)
  | [], cs => some ([], cs)
  | .letter _ :: _, [] => none
  | .letter p :: items, c :: cs => if Text.sameLetter p c then read? items cs else none
  | .blanks :: items, cs => (blankRests cs).findSome? (read? items)
  | .field f :: items, cs =>
    (f.shape.rests cs).findSome? fun rest =>
      (read? items rest).map fun (readings, last) =>
        ((f, cs.take (cs.length - rest.length)) :: readings, last)

end SchemaModel.Pattern
