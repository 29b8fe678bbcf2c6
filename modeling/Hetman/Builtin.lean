/-!
The built-in functions and their names in the dialects.
-/

namespace Hetman

inductive Builtin where
  | destroy
  | createMatrix | matrixSize | flatten | transpose | getRow | getCol | setAt
  | removeKey | keys | values | hasKey
  | insert | append | remove | pop | clear | slice | contains | indexOf
  | write | read | length | randint
  deriving DecidableEq, Inhabited

namespace Builtin

def names : Builtin → List String
  | .destroy => ["Znyshchyty", "Destructor", "Unichtozhit", "@~"]
  | .createMatrix => ["create_matrix", "stvoryty_matrytsyu", "sozdat_matritsu", "@[]"]
  | .matrixSize => ["matrix_size", "rozmir_matrytsi", "razmer_matritsy", "#[]"]
  | .flatten => ["flatten", "splushchyty", "spluschit", "[]>"]
  | .transpose => ["transpose", "transportuvaty", "transportirovat", "[]^"]
  | .getRow => ["get_row", "otrymaty_ryadok", "poluchit_stroku", "[]->"]
  | .getCol => ["get_col", "otrymaty_stovpets", "poluchit_stolbets", "[]|"]
  | .setAt => ["set_at", "vstanovyty_na", "ustanovit_na", "[]:="]
  | .removeKey => ["remove_key", "vydalyty_klyuch", "udalit_klyuch", "vydalyty_klyuch_sym"]
  | .keys => ["klyuchi", "keys", "klyuchi_sym"]
  | .values => ["znachennya", "values", "znachennie", "znachennya_sym"]
  | .hasKey => ["maye_klyuch", "has_key", "imeet_klyuch", "maye_klyuch_sym"]
  | .insert => ["insert", "vstavyty", "vstavit", "+:"]
  | .append => ["append", "dodaty", "dobavit", "+<"]
  | .remove => ["remove", "vydalyty", "udalit", "-<"]
  | .pop => ["pop", "vyinyaty", "vytaschit", "-<!"]
  | .clear => ["clear", "ochystyty", "ochistit", "--<"]
  | .slice => ["slice", "vyrizaty", "vyrezat", "[..]"]
  | .contains => ["contains", "mistyt", "soderzhit", "?^"]
  | .indexOf => ["index_of", "index_z", "index_znachenia", "?:"]
  | .write => ["Zapysaty", "Write", "Zapisat", "=>"]
  | .read => ["Chytaty", "Read", "Chitat", "=<"]
  | .length => ["dovzhyna", "length", "dlinna", "___"]
  | .randint => ["randint"]

def all : List Builtin :=
  [.destroy, .createMatrix, .matrixSize, .flatten, .transpose, .getRow, .getCol, .setAt,
   .removeKey, .keys, .values, .hasKey, .insert, .append, .remove, .pop, .clear, .slice,
   .contains, .indexOf, .write, .read, .length, .randint]

def ofName? (name : String) : Option Builtin :=
  all.find? fun b => b.names.contains name

def accepts (b : Builtin) (count : Nat) : Bool :=
  match b with
  | .destroy | .matrixSize | .flatten | .transpose | .keys | .values | .pop | .clear | .read
  | .length => count == 1
  | .getRow | .getCol | .removeKey | .hasKey | .append | .remove | .contains | .indexOf
  | .randint => count == 2
  | .insert => count == 3
  | .createMatrix | .slice | .write => count == 2 || count == 3
  | .setAt => 3 ≤ count

/-- What is said to a wrong number of arguments. -/
def usage : Builtin → String
  | .destroy => "Function 'Destructor' expects exactly 1 argument, kozache."
  | .createMatrix =>
    "Function 'create_matrix' expects 2 or 3 arguments (rows, cols, [fill_value]), kozache."
  | .matrixSize => "Function 'matrix_size' expects 1 argument, kozache."
  | .flatten => "Function 'flatten' expects 1 argument, kozache."
  | .transpose => "Function 'transpose' expects 1 argument, kozache."
  | .getRow => "Function 'get_row' expects 2 arguments (matrix, row_index), kozache."
  | .getCol => "Function 'get_col' expects 2 arguments (matrix, col_index), kozache."
  | .setAt =>
    "Function 'set_at' expects at least 3 arguments (array, indices..., value), kozache."
  | .removeKey => "Function 'remove_key' expects exactly 2 arguments (dictionary, key), kozache."
  | .keys => "Function 'klyuchi' expects exactly 1 argument, kozache."
  | .values => "Function 'znachennya' expects exactly 1 argument, kozache."
  | .hasKey => "Function 'maye_klyuch' expects exactly 2 arguments, kozache."
  | .insert => "Function 'insert' expects exactly 3 arguments, kozache."
  | .append => "Function 'append' expects exactly 2 arguments, kozache."
  | .remove => "Function 'remove' expects exactly 2 arguments, kozache."
  | .pop => "Function 'pop' expects exactly 1 argument, kozache."
  | .clear => "Function 'clear' expects exactly 1 argument, kozache."
  | .slice => "Function 'slice' expects 2 or 3 arguments, kozache."
  | .contains => "Function 'contains' expects exactly 2 arguments, kozache."
  | .indexOf => "Function 'index_of' expects exactly 2 arguments, kozache."
  | .write => "Function 'Zapysaty' expects 2 or 3 arguments, kozache."
  | .read => "Function 'Chytaty' expects exactly 1 argument, kozache."
  | .length => "Function 'dovzhyna' expects exactly 1 argument, kozache."
  | .randint => "Function 'randint' expects exactly 2 arguments, kozache."

end Builtin

end Hetman
