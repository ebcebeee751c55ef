import WarheadDiscord.Database.StatementBinding

/-!
# The text of a prepared statement in the log

`getQueryString` puts the parameters in the place of the question marks, one after the other, in a
text that changes under it: it looks for the next question mark behind what it wrote last.  So a
question mark in a parameter is not taken for one of the statement, and the result is the
substitution that takes them all at once (`getQueryString_eq`).

When no question mark is left `find` returns `npos` and `replace` throws.  All calls stand in the
arguments of `LOG_ERROR` or `LOG_DEBUG`, which catch the exception and write that the format is
wrong, and the text is lost; `getQueryString_eq` says when that does not happen.

The text of a number with a fraction is the formatter's.

## Main definitions

* `PreparedStatementData.toString`, `getQueryString` — the functions of the source.
* `substitute` — all question marks at once.
-/

namespace WarheadDiscord.Statements

/-- How the formatter writes a number with a fraction. -/
structure Formatter where
  float : BitVec 32 → List UInt8
  double : BitVec 64 → List UInt8

def PreparedStatementData.toString (fmt : Formatter) : PreparedStatementData → List UInt8
  | .integral .bool value => if value.1 = 0 then ascii "false" else ascii "true"
  | .integral _ value => decimalText value.1
  | .float bits => fmt.float bits
  | .double bits => fmt.double bits
  | .string value => value
  | .binary _ => ascii "BINARY"
  | .null => ascii "NULL"

/-- `?` -/
def questionMark : UInt8 := 0x3f

/-- `std::string::find`, from a position on. -/
def findFrom (text : List UInt8) (c : UInt8) (pos : ℕ) : Option ℕ :=
  ((text.drop pos).findIdx? (· == c)).map (pos + ·)

/-- `std::string::replace` of one character. -/
def replaceAt (text : List UInt8) (pos : ℕ) (str : List UInt8) : List UInt8 :=
  text.take pos ++ str ++ text.drop (pos + 1)

/-- The loop of `getQueryString`; `none` when `replace` throws. -/
def getQueryStringLoop (fmt : Formatter) :
    List PreparedStatementData → List UInt8 → ℕ → Option (List UInt8)
  | [], queryString, _ => some queryString
  | value :: data, queryString, pos =>
      (findFrom queryString questionMark pos).bind fun pos =>
        let replaceStr := value.toString fmt
        getQueryStringLoop fmt data (replaceAt queryString pos replaceStr)
          (pos + replaceStr.length)

def getQueryString (fmt : Formatter) (mStmt : MySQLPreparedStatement) (stmt : PreparedStatement) :
    Option (List UInt8) :=
  getQueryStringLoop fmt stmt.data mStmt.queryString 0

/-- The texts in the place of the first question marks. -/
def substitute : List UInt8 → List (List UInt8) → Option (List UInt8)
  | text, [] => some text
  | [], _ :: _ => none
  | c :: text, str :: strs =>
      if c = questionMark then (substitute text strs).map (str ++ ·)
      else (substitute text (str :: strs)).map (c :: ·)

theorem findIdx?_of_not_mem {text : List UInt8} (h : questionMark ∉ text) :
    text.findIdx? (· == questionMark) = none := by
  rw [List.findIdx?_eq_none_iff]
  intro c hc
  rw [beq_eq_false_iff_ne]
  exact fun heq => h (heq ▸ hc)

theorem findFrom_append (before text : List UInt8) (c : UInt8) :
    findFrom (before ++ text) c before.length =
      (text.findIdx? (· == c)).map (before.length + ·) := by
  rw [findFrom, List.drop_left]

theorem replaceAt_append (before after str : List UInt8) (c : UInt8) :
    replaceAt (before ++ c :: after) before.length str = before ++ str ++ after := by
  simp [replaceAt]

/-- The text up to the next question mark stays. -/
theorem substitute_append {text : List UInt8} (h : questionMark ∉ text) (after str : List UInt8)
    (strs : List (List UInt8)) :
    substitute (text ++ questionMark :: after) (str :: strs) =
      (substitute after strs).map fun rest => text ++ str ++ rest := by
  induction text with
  | nil => simp [substitute]
  | cons c text ih =>
      have hc : c ≠ questionMark := fun heq => h (heq ▸ List.mem_cons_self)
      rw [List.cons_append, substitute, if_neg hc, ih fun hmem => h (List.mem_cons_of_mem _ hmem),
        Option.map_map]
      rfl

theorem substitute_of_not_mem {text : List UInt8} (h : questionMark ∉ text) (str : List UInt8)
    (strs : List (List UInt8)) : substitute text (str :: strs) = none := by
  induction text with
  | nil => rfl
  | cons c text ih =>
      have hc : c ≠ questionMark := fun heq => h (heq ▸ List.mem_cons_self)
      rw [substitute, if_neg hc, ih fun hmem => h (List.mem_cons_of_mem _ hmem)]
      rfl

/-- The induction is over the parameters; what is in front of `before.length` is done. -/
theorem getQueryStringLoop_append (fmt : Formatter) (data : List PreparedStatementData)
    (before text : List UInt8) :
    getQueryStringLoop fmt data (before ++ text) before.length =
      (substitute text (data.map (PreparedStatementData.toString fmt))).map (before ++ ·) := by
  induction data generalizing before text with
  | nil => cases text <;> rfl
  | cons value data ih =>
      rw [getQueryStringLoop, findFrom_append, List.map_cons]
      by_cases hmem : questionMark ∈ text
      · obtain ⟨front, after, rfl, hfront⟩ := List.eq_append_cons_of_mem hmem
        have hidx : (front ++ questionMark :: after).findIdx? (· == questionMark) =
            some front.length := by
          simp [List.findIdx?_append, findIdx?_of_not_mem hfront, List.findIdx?_cons]
        have hnext := ih (before ++ front ++ value.toString fmt) after
        rw [hidx, Option.map_some, Option.bind_some, ← List.append_assoc, ← List.length_append]
        simp only [replaceAt_append]
        rw [← List.length_append, hnext, substitute_append hfront, Option.map_map]
        refine congrArg (Option.map · _) (funext fun rest => ?_)
        simp
      · rw [findIdx?_of_not_mem hmem, substitute_of_not_mem hmem]
        rfl

theorem substitute_isSome_iff (text : List UInt8) (strs : List (List UInt8)) :
    (substitute text strs).isSome ↔ strs.length ≤ text.count questionMark := by
  fun_induction substitute text strs with
  | case1 text => simp
  | case2 str strs => simp
  | case3 text str strs ih => simp [ih]
  | case4 c text str strs hc ih =>
      rw [Option.isSome_map, ih, List.count_cons_of_ne hc]

/-- **The text in the log is the statement with its parameters**, each in the place of its question
mark, whatever the parameters are; and there is one exactly when the statement has a question mark
for each. -/
theorem getQueryString_eq (fmt : Formatter) (mStmt : MySQLPreparedStatement)
    (stmt : PreparedStatement) :
    getQueryString fmt mStmt stmt =
        substitute mStmt.queryString (stmt.data.map (PreparedStatementData.toString fmt)) ∧
      ((getQueryString fmt mStmt stmt).isSome ↔
        stmt.data.length ≤ mStmt.queryString.count questionMark) := by
  have heq : getQueryString fmt mStmt stmt =
      substitute mStmt.queryString (stmt.data.map (PreparedStatementData.toString fmt)) := by
    rw [getQueryString]
    exact (getQueryStringLoop_append fmt stmt.data [] mStmt.queryString).trans (by simp)
  refine ⟨heq, ?_⟩
  rw [heq, substitute_isSome_iff, List.length_map]

end WarheadDiscord.Statements
