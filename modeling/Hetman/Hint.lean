/-!
Hints: a word of advice after a message that has a well-known cause.

A hint belongs to a phrase. The first phrase that stands in the message, in
upper or lower case, decides.
-/

namespace Hetman.Hint

/-- A letter without regard to case. Three signs beyond the plain letters
count as an `i` or an `s`. -/
def fold (c : Char) : Char :=
  match c with
  | 'İ' | 'ı' => 'i'
  | 'ſ' => 's'
  | c => c.toLower

def startsWith : (phrase text : List Char) → Bool
  | [], _ => true
  | _ :: _, [] => false
  | p :: phrase, c :: text => fold p == fold c && startsWith phrase text

def occurs (phrase : List Char) : (text : List Char) → Bool
  | [] => phrase.isEmpty
  | c :: text => startsWith phrase (c :: text) || occurs phrase text

def all : List (String × String) :=
  [("Expected SEMICOLON",
      "Ay Kozache! Even borshch needs a spoon, your code needs a semicolon."),
   ("not defined", "Oy, Kozache! You try to ride a horse that is not there."),
   ("divide by zero", "Dividing by zero? Kozak magic cannot break math, sorry."),
   ("array index out of bounds", "You search for varenyky outside the pot, Kozache!")]

def find? (message : String) : Option String :=
  (all.find? fun e => occurs e.1.toList message.toList).map (·.2)

/-- A message on its line, and its hint, if any, on the next. -/
def annotate (message : String) : String :=
  match find? message with
  | some hint => s!"{message}\nHint: {hint}\n"
  | none => s!"{message}\n"

end Hetman.Hint
