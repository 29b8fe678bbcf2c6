/-!
The four dialects.

Every keyword and every built-in function has a word in each dialect. Strict
mode asks of a word which dialect it belongs to (`Dialect.ofWord?`) and how the
program's own dialect would put it (`translate?`). A few words are common to the
two Slavic dialects (`sharedSlavic`).
-/

namespace Hetman

inductive Dialect where
  | ukrainian | english | russian | symbolic
  deriving DecidableEq, Inhabited

namespace Dialect

/-- The dialects in the order in which a word is looked up. -/
def all : List Dialect := [.ukrainian, .english, .russian, .symbolic]

def name : Dialect → String
  | .ukrainian => "ukrainian"
  | .english => "english"
  | .russian => "russian"
  | .symbolic => "symbolic"

def ofName? (name : String) : Option Dialect :=
  all.find? fun d => d.name == name

def isSlavic : Dialect → Bool
  | .ukrainian | .russian => true
  | .english | .symbolic => false

def ofStarter? : String → Option Dialect
  | "Hetman" => some .ukrainian
  | "Chief" => some .english
  | "Ataman" => some .russian
  | ">>>" => some .symbolic
  | _ => none

/-- Keywords and names for the built-in functions. -/
def vocabulary : Dialect → List String
  | .ukrainian =>
    ["Hetman", "Spivaty", "Slukhai", "Povernuty", "Zavdannya", "Doki", "Chyslo", "DroboveChyslo",
     "Ryadok", "Yakscho", "Abo_Yakscho", "Inakshe", "dovzhyna", "kozhen", "Klas", "Tvir", "tsey",
     "Sprobuy", "Piymat", "Vkintsi", "Kydaty", "Vykhid", "Importuvaty", "znachennya",
     "maye_klyuch", "vydalyty_klyuch", "dodaty", "vstavyty", "vydalyty", "vyinyaty", "ochystyty",
     "vyrizaty", "mistyt", "index_z", "Zapysaty", "Chytaty", "stvoryty_matrytsyu",
     "rozmir_matrytsi", "splushchyty", "transportuvaty", "otrymaty_ryadok", "otrymaty_stovpets",
     "vstanovyty_na", "Vidkrytyy", "Zakrytyy", "Zakhyshchenyy", "Batko", "Druh", "Znyshchyty"]
  | .english =>
    ["Chief", "Print", "Input", "Return", "Function", "For", "While", "True", "False", "Int",
     "Float", "Str", "Bool", "If", "Else_If", "Else", "Length", "each", "Class", "Constructor",
     "new", "this", "Try", "Catch", "Finally", "Throw", "Exit", "Import", "keys", "values",
     "has_key", "remove_key", "append", "insert", "remove", "pop", "clear", "slice", "contains",
     "index_of", "Write", "Read", "create_matrix", "matrix_size", "flatten", "transpose",
     "get_row", "get_col", "set_at", "Public", "Private", "Protected", "Super", "Friend",
     "Destroy"]
  | .russian =>
    ["Ataman", "Pechatat", "Vvod", "Vernut", "Zadanie", "Poka", "Chislo", "DrobnoyeChislo",
     "Stroka", "Yesli", "Ili_Yesli", "Inache", "dlinna", "kazhdy", "Klass", "Tvorenye", "etot",
     "Poprobuy", "Poymat", "Nakonets", "Brosat", "Vykhod", "Importirovat", "znachennie",
     "imeet_klyuch", "udalit_klyuch", "dobavit", "vstavit", "udalit", "vytaschit", "ochistit",
     "vyrezat", "soderzhit", "index_znachenia", "Zapisat", "Chitat", "sozdat_matritsu",
     "razmer_matritsy", "spluschit", "transportirovat", "poluchit_stroku", "poluchit_stolbets",
     "ustanovit_na", "Otkrytyy", "Zakrytyy", "Zashchishchennyy", "Roditel", "Drug", "Unichtozhit"]
  | .symbolic =>
    [">>>", "!", "?", "<!", "$", "~~", "~`", "1!", "0!", "i`**", "f`**", "s`**", "b`**", "??",
     "?!", "!!", "___", "::", "@", "@=", "+@", "->", "<<", ">>", "<>", "!!>", "<<<", "#",
     "k\x7b\x7d", "v\x7b\x7d", "?k", "-k", "+<", "+:", "-<", "-<!", "--<", "[..]", "?^", "?:",
     "=>", "=<", "@[]", "#[]", "[]>", "[]^", "[]->", "[]|", "[]:=", "++>", "-->", "##>", "^>",
     "<->", "@~"]

def ofWord? (word : String) : Option Dialect :=
  all.find? fun d => d.vocabulary.contains word

end Dialect

def sharedSlavic : List String :=
  ["Dlya", "Pravda", "Nepravda", "Logika", "klyuchi", "novyy"]

/-! ## The same word in another dialect -/

/-- One meaning and its word in each dialect. -/
structure Rendering where
  ukrainian : String
  english : String
  russian : String
  symbolic : String

namespace Rendering

def word (r : Rendering) : Dialect → String
  | .ukrainian => r.ukrainian
  | .english => r.english
  | .russian => r.russian
  | .symbolic => r.symbolic

def mentions (r : Rendering) (word : String) : Bool :=
  Dialect.all.any fun d => r.word d == word

end Rendering

/-- The meanings that hints can put into another dialect. -/
def renderings : List Rendering :=
  [⟨"Hetman", "Chief", "Ataman", ">>>"⟩,
   ⟨"Spivaty", "Print", "Pechatat", "!"⟩,
   ⟨"Slukhai", "Input", "Vvod", "?"⟩,
   ⟨"Povernuty", "Return", "Vernut", "<!"⟩,
   ⟨"Zavdannya", "Function", "Zadanie", "$"⟩,
   ⟨"Doki", "While", "Poka", "~`"⟩,
   ⟨"Chyslo", "Int", "Chislo", "i`**"⟩,
   ⟨"DroboveChyslo", "Float", "DrobnoyeChislo", "f`**"⟩,
   ⟨"Ryadok", "Str", "Stroka", "s`**"⟩,
   ⟨"Logika", "Bool", "Logika", "b`**"⟩,
   ⟨"Yakscho", "If", "Yesli", "??"⟩,
   ⟨"Abo_Yakscho", "Else_If", "Ili_Yesli", "?!"⟩,
   ⟨"Inakshe", "Else", "Inache", "!!"⟩,
   ⟨"Klas", "Class", "Klass", "@"⟩,
   ⟨"Tvir", "Constructor", "Tvorenye", "@="⟩,
   ⟨"novyy", "new", "novyy", "+@"⟩,
   ⟨"tsey", "this", "etot", "->"⟩,
   ⟨"Batko", "Super", "Roditel", "^>"⟩,
   ⟨"Znyshchyty", "Destructor", "Unichtozhit", "@~"⟩,
   ⟨"Vidkrytyy", "Public", "Otkrytyy", "++>"⟩,
   ⟨"Zakrytyy", "Private", "Zakrytyy", "-->"⟩,
   ⟨"Zakhyshchenyy", "Protected", "Zashchishchennyy", "##>"⟩,
   ⟨"Druh", "Friend", "Drug", "<->"⟩,
   ⟨"Sprobuy", "Try", "Poprobuy", "<<"⟩,
   ⟨"Piymat", "Catch", "Poymat", ">>"⟩,
   ⟨"Vkintsi", "Finally", "Nakonets", "<>"⟩,
   ⟨"Kydaty", "Throw", "Brosat", "!!>"⟩,
   ⟨"Vykhid", "Exit", "Vykhod", "<<<"⟩,
   ⟨"Importuvaty", "Import", "Importirovat", "#"⟩,
   ⟨"kozhen", "each", "kazhdy", "::"⟩,
   ⟨"dovzhyna", "length", "dlinna", "___"⟩]

/-- Without a target, the word itself if its meaning is known. -/
def translate? (word : String) (target : Option Dialect) : Option String :=
  (renderings.find? fun r => r.mentions word).map fun r =>
    match target with
    | some d => r.word d
    | none => word

end Hetman
