import Hetman.Token

/-!
The lexicon: which spelling is which keyword.

Each keyword has a spelling in every dialect. Two dialects may share one, and
then it is the same keyword in both. Four symbols name functions on
dictionaries; they are read as the names of those functions.
-/

namespace Hetman.Token

def lexicon : List (String × Keyword) :=
  [("Hetman", .start), ("Spivaty", .print), ("Slukhai", .input), ("Povernuty", .ret),
   ("Zavdannya", .function), ("Dlya", .forLoop), ("Doki", .whileLoop), ("Pravda", .yes),
   ("Nepravda", .no), ("Chyslo", .intType), ("DroboveChyslo", .floatType),
   ("Ryadok", .textType), ("Logika", .boolType), ("Yakscho", .ifBranch),
   ("Abo_Yakscho", .elseIf), ("Inakshe", .elseBranch), ("dovzhyna", .length),
   ("kozhen", .each), ("Klas", .classDef), ("Tvir", .constructor), ("novyy", .new),
   ("tsey", .this), ("Batko", .super), ("Sprobuy", .tryBlock), ("Piymat", .catchBlock),
   ("Vkintsi", .finallyBlock), ("Kydaty", .throw), ("Vykhid", .exit),
   ("Importuvaty", .importFile), ("Vidkrytyy", .publicAccess), ("Zakrytyy", .privateAccess),
   ("Zakhyshchenyy", .protectedAccess), ("Druh", .friend), ("DruhKlas", .friendClass),
   ("Chief", .start), ("Print", .print), ("Input", .input), ("Return", .ret),
   ("Function", .function), ("For", .forLoop), ("While", .whileLoop), ("True", .yes),
   ("False", .no), ("Int", .intType), ("Float", .floatType), ("Str", .textType),
   ("Bool", .boolType), ("If", .ifBranch), ("Else_If", .elseIf), ("Else", .elseBranch),
   ("Length", .length), ("each", .each), ("Class", .classDef), ("Constructor", .constructor),
   ("new", .new), ("this", .this), ("Super", .super), ("Try", .tryBlock),
   ("Catch", .catchBlock), ("Finally", .finallyBlock), ("Throw", .throw), ("Exit", .exit),
   ("Import", .importFile), ("Public", .publicAccess), ("Private", .privateAccess),
   ("Protected", .protectedAccess), ("Friend", .friend), ("FriendClass", .friendClass),
   ("Ataman", .start), ("Pechatat", .print), ("Vvod", .input), ("Vernut", .ret),
   ("Zadanie", .function), ("Poka", .whileLoop), ("Chislo", .intType),
   ("DrobnoyeChislo", .floatType), ("Stroka", .textType), ("Yesli", .ifBranch),
   ("Ili_Yesli", .elseIf), ("Inache", .elseBranch), ("Dlinna", .length), ("Kazhdy", .each),
   ("Klass", .classDef), ("Tvorenye", .constructor), ("etot", .this), ("Roditel", .super),
   ("Poprobuy", .tryBlock), ("Poymat", .catchBlock), ("Nakonets", .finallyBlock),
   ("Brosat", .throw), ("Vykhod", .exit), ("Importirovat", .importFile),
   ("Otkrytyy", .publicAccess), ("Zashchishchennyy", .protectedAccess), ("Drug", .friend),
   ("DrugKlass", .friendClass),
   (">>>", .start), ("!", .print), ("?", .input), ("<!", .ret), ("$", .function),
   ("~~", .forLoop), ("~`", .whileLoop), ("1!", .yes), ("0!", .no), ("i`**", .intType),
   ("f`**", .floatType), ("s`**", .textType), ("b`**", .boolType), ("??", .ifBranch),
   ("?!", .elseIf), ("!!", .elseBranch), ("___", .length), ("::", .each), ("@", .classDef),
   ("@=", .constructor), ("+@", .new), ("->", .this), ("<<", .tryBlock), (">>", .catchBlock),
   ("<>", .finallyBlock), ("!!>", .throw), ("<<<", .exit), ("#", .importFile),
   ("++>", .publicAccess), ("-->", .privateAccess), ("##>", .protectedAccess),
   ("^>", .super), ("<->", .friend), ("<=>", .friendClass)]

def keyword? (spelling : String) : Option Keyword :=
  lexicon.lookup spelling

/-- The symbols for functions on dictionaries, with the names they stand for. -/
def dictionarySymbols : List (String × String) :=
  [("k\x7b\x7d", "klyuchi_sym"), ("v\x7b\x7d", "znachennya_sym"),
   ("?k", "maye_klyuch_sym"), ("-k", "vydalyty_klyuch_sym")]

def classify (spelling : String) : Kind × String :=
  match dictionarySymbols.lookup spelling with
  | some name => (.ident, name)
  | none =>
    match keyword? spelling with
    | some k => (.keyword k, spelling)
    | none => (.ident, spelling)

end Hetman.Token
