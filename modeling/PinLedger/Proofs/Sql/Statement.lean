import PinLedger.Proofs.Sql.Reader
import PinLedger.Sql.Statement

/-!
# PinLedger.Proofs.Sql.Statement

The SQL text of a statement tells which statement it is. A text of a view statement reads back as
the statement itself, one of a pin statement as its outline: the names in it are told up to the
blanks around their parts, since these are not written.

* `ViewStatement.ofSql?`, `PinOutline.ofSql?` — the statement of a text
* `PinStatement.outline` — what the text of a pin statement tells
* `sql_determines` — the text of a statement reads back, and determines it
-/

namespace PinLedger

/-- All instants in the record can be told by texts. -/
def ViewRecord.Readable (r : ViewRecord) : Prop :=
  r.timeOriginal.Readable ∧ r.timeMain.Readable ∧ r.lastUpdate.Readable

def ViewStatement.Readable : ViewStatement → Prop
  | .insert r | .update r => r.Readable
  | .delete _ => True

/-- What the text of a pin statement tells. A name is told by the parts between its dots. -/
inductive PinOutline where
  | shift (table column : List (List Char)) (range : TimeRange) (add : Bool)
  | reset (table : List (List Char))
deriving DecidableEq, Repr

namespace PinStatement

def outline : PinStatement → PinOutline
  | .shift c r add => .shift (Sql.nameParts c.table) (Sql.nameParts c.name) r add
  | .reset table => .reset (Sql.nameParts table)

def Readable : PinStatement → Prop
  | .shift _ r _ => r.start.Readable ∧ r.stop.Readable
  | .reset _ => True

end PinStatement

namespace Sql

open Text

/-! ### View statements -/

/-- The values of a record behind each other, with these words between them. Its id stands before or
behind them. -/
def readValues (main layers update driving : String) : Reader (Int → ViewRecord) := fun s => do
  let (timeOriginal, s) ← readTimestamp s
  let s ← expect main s
  let (timeMain, s) ← readTimestamp s
  let s ← expect layers s
  let (names, s) ← readTextArray s
  let s ← expect update s
  let (lastUpdate, s) ← readStamp s
  let s ← expect driving s
  let (drivingLayer, s) ← readOptionalText s
  some (fun id => ⟨id, timeOriginal, timeMain, .ofList names, lastUpdate, drivingLayer⟩, s)

theorem readValues_append {r : ViewRecord} (h : r.Readable) {rest : List Char}
    (hrest : Stops (· == '\'') rest) (main layers update driving : String) :
    readValues main layers update driving
      (timestamp r.timeOriginal ++ (main.toList ++ (timestamp r.timeMain ++ (layers.toList ++
        (textArray r.layers.toList ++ (update.toList ++ (stamp r.lastUpdate ++ (driving.toList ++
          (optionalText r.drivingLayer ++ rest))))))))) =
      some (fun id => { r with id := id }, rest) := by
  obtain ⟨horiginal, hmain, hupdate⟩ := h
  unfold readValues
  refine Option.bind_eq_some_iff.2 ⟨_, readTimestamp_timestamp horiginal _, ?_⟩
  refine Option.bind_eq_some_iff.2 ⟨_, expect_self main _, ?_⟩
  refine Option.bind_eq_some_iff.2 ⟨_, readTimestamp_timestamp hmain _, ?_⟩
  refine Option.bind_eq_some_iff.2 ⟨_, expect_self layers _, ?_⟩
  refine Option.bind_eq_some_iff.2 ⟨_, readTextArray_textArray r.layers.toList _, ?_⟩
  refine Option.bind_eq_some_iff.2 ⟨_, expect_self update _, ?_⟩
  refine Option.bind_eq_some_iff.2 ⟨_, readStamp_stamp hupdate _, ?_⟩
  refine Option.bind_eq_some_iff.2 ⟨_, expect_self driving _, ?_⟩
  refine Option.bind_eq_some_iff.2 ⟨_, readOptionalText_optionalText r.drivingLayer hrest, ?_⟩
  simp only [NameSet.ofList_toList]

def readInsert : Reader ViewStatement := fun s => do
  let s ← expect ("INSERT INTO views (view_id, time_original, time_main, layers_list, last_update, "
    ++ "driving_layer) VALUES (") s
  let (id, s) ← readInteger s
  let s ← expect ", " s
  let (record, s) ← readValues ", " ", " ", " ", " s
  let s ← expect ")" s
  some (.insert (record id), s)

def readUpdate : Reader ViewStatement := fun s => do
  let s ← expect "UPDATE views SET time_original = " s
  let (record, s) ← readValues ", time_main = " ", layers_list = " ", last_update = "
    ", driving_layer = " s
  let s ← expect " WHERE view_id = " s
  let (id, s) ← readInteger s
  some (.update (record id), s)

def readDelete : Reader ViewStatement := fun s => do
  let s ← expect "DELETE FROM views WHERE view_id = " s
  let (id, s) ← readInteger s
  some (.delete id, s)

def readView : Reader ViewStatement := fun s => readInsert s <|> readUpdate s <|> readDelete s

theorem readInsert_insertView {r : ViewRecord} (h : r.Readable) :
    readInsert (insertView r) = some (.insert r, []) := by
  have htext : insertView r =
      ("INSERT INTO views (view_id, time_original, time_main, layers_list, last_update, " ++
        "driving_layer) VALUES (").toList ++ (integer r.id ++ (", ".toList ++
        (timestamp r.timeOriginal ++ (", ".toList ++ (timestamp r.timeMain ++ (", ".toList ++
        (textArray r.layers.toList ++ (", ".toList ++ (stamp r.lastUpdate ++ (", ".toList ++
        (optionalText r.drivingLayer ++ (")".toList ++ [])))))))))))) := by
    unfold insertView
    simp only [joined, List.append_assoc]
    rfl
  rw [htext]
  unfold readInsert
  refine Option.bind_eq_some_iff.2 ⟨_, expect_self _ _, ?_⟩
  refine Option.bind_eq_some_iff.2 ⟨_, readInteger_integer r.id (stops_cons rfl), ?_⟩
  refine Option.bind_eq_some_iff.2 ⟨_, expect_self _ _, ?_⟩
  refine Option.bind_eq_some_iff.2 ⟨_, readValues_append h (stops_cons rfl) _ _ _ _, ?_⟩
  exact Option.bind_eq_some_iff.2 ⟨_, expect_self _ _, rfl⟩

theorem readUpdate_updateView {r : ViewRecord} (h : r.Readable) :
    readUpdate (updateView r) = some (.update r, []) := by
  have htext : updateView r =
      "UPDATE views SET time_original = ".toList ++ (timestamp r.timeOriginal ++
        (", time_main = ".toList ++ (timestamp r.timeMain ++ (", layers_list = ".toList ++
        (textArray r.layers.toList ++ (", last_update = ".toList ++ (stamp r.lastUpdate ++
        (", driving_layer = ".toList ++ (optionalText r.drivingLayer ++
        (" WHERE view_id = ".toList ++ (integer r.id ++ []))))))))))) := by
    unfold updateView
    simp only [List.append_assoc, List.append_nil]
  rw [htext]
  unfold readUpdate
  refine Option.bind_eq_some_iff.2 ⟨_, expect_self _ _, ?_⟩
  refine Option.bind_eq_some_iff.2 ⟨_, readValues_append h (stops_cons rfl) _ _ _ _, ?_⟩
  refine Option.bind_eq_some_iff.2 ⟨_, expect_self _ _, ?_⟩
  exact Option.bind_eq_some_iff.2 ⟨_, readInteger_integer r.id (stops_nil _), rfl⟩

theorem readDelete_deleteView (id : Int) : readDelete (deleteView id) = some (.delete id, []) := by
  have htext : deleteView id =
      "DELETE FROM views WHERE view_id = ".toList ++ (integer id ++ []) := by
    unfold deleteView
    rw [List.append_nil]
  rw [htext]
  unfold readDelete
  refine Option.bind_eq_some_iff.2 ⟨_, expect_self _ _, ?_⟩
  exact Option.bind_eq_some_iff.2 ⟨_, readInteger_integer _ (stops_nil _), rfl⟩

/-- The kinds of view statements differ in their first characters. -/
theorem readView_chars {s : ViewStatement} (h : s.Readable) : readView s.chars = some (s, []) := by
  cases s with
  | insert r =>
    show (readInsert (insertView r) <|> _) = _
    rw [readInsert_insertView h]
    rfl
  | update r =>
    have hinsert : readInsert (updateView r) = none := rfl
    show (readInsert (updateView r) <|> readUpdate (updateView r) <|> _) = _
    rw [hinsert, readUpdate_updateView h]
    rfl
  | delete id =>
    have hinsert : readInsert (deleteView id) = none := rfl
    have hupdate : readUpdate (deleteView id) = none := rfl
    show (readInsert (deleteView id) <|> readUpdate (deleteView id) <|>
      readDelete (deleteView id)) = _
    rw [hinsert, hupdate, readDelete_deleteView]
    rfl

/-! ### Pin statements -/

/-- How a statement sets the pin counts, up or down. -/
def direction (add : Bool) : String :=
  if add then " SET pin = pin + 1 WHERE " else " SET pin = pin - 1 WHERE "

/-- Going down leaves out the rows that are at zero. -/
def rowGuard (add : Bool) : String := if add then "" else " AND pin > 0"

def readDirection : Reader Bool := fun s =>
  match expect (direction true) s with
  | some s => some (true, s)
  | none => (expect (direction false) s).map (false, ·)

def readShift (table : List (List Char)) : Reader PinOutline := fun s => do
  let (add, s) ← readDirection s
  let (column, s) ← readName s
  let s ← expect " BETWEEN " s
  let (start, s) ← readTimestamp s
  let s ← expect " AND " s
  let (stop, s) ← readTimestamp s
  let s ← expect (rowGuard add) s
  some (.shift table column (.between start stop) add, s)

def readPin : Reader PinOutline := fun s => do
  let s ← expect "UPDATE " s
  let (table, s) ← readName s
  match expect " SET pin = 0 WHERE pin != 0" s with
  | some s => some (.reset table, s)
  | none => readShift table s

theorem readDirection_direction (add : Bool) (rest : List Char) :
    readDirection ((direction add).toList ++ rest) = some (add, rest) := by
  unfold readDirection
  cases add with
  | true => simp only [expect_self]
  | false =>
    have hother : expect (direction true) ((direction false).toList ++ rest) = none := rfl
    simp only [hother, expect_self, Option.map_some]

theorem readShift_shift {r : TimeRange} (hstart : r.start.Readable) (hstop : r.stop.Readable)
    (table : List (List Char)) (column : String) (add : Bool) :
    readShift table ((direction add).toList ++ (identifier column ++ (" BETWEEN ".toList ++
      (timestamp r.start ++ (" AND ".toList ++ (timestamp r.stop ++ (rowGuard add).toList)))))) =
        some (.shift table (nameParts column) r add, []) := by
  unfold readShift
  refine Option.bind_eq_some_iff.2 ⟨_, readDirection_direction add _, ?_⟩
  refine Option.bind_eq_some_iff.2
    ⟨_, readName_identifier (stops_cons rfl) (stops_cons rfl) column, ?_⟩
  refine Option.bind_eq_some_iff.2 ⟨_, expect_self _ _, ?_⟩
  refine Option.bind_eq_some_iff.2 ⟨_, readTimestamp_timestamp hstart _, ?_⟩
  refine Option.bind_eq_some_iff.2 ⟨_, expect_self _ _, ?_⟩
  refine Option.bind_eq_some_iff.2 ⟨_, readTimestamp_timestamp hstop _, ?_⟩
  have hguard := expect_self (rowGuard add) []
  rw [List.append_nil] at hguard
  refine Option.bind_eq_some_iff.2 ⟨_, hguard, ?_⟩
  rw [TimeRange.between_of_le r.start_le_stop]

theorem pinShift_eq (c : Column) (r : TimeRange) (add : Bool) :
    pinShift c r add = "UPDATE ".toList ++ (identifier c.table ++ ((direction add).toList ++
      (identifier c.name ++ (" BETWEEN ".toList ++ (timestamp r.start ++ (" AND ".toList ++
        (timestamp r.stop ++ (rowGuard add).toList))))))) := by
  unfold pinShift
  cases add <;> simp only [List.append_assoc] <;> rfl

theorem stops_direction {p : Char → Bool} (hp : p ' ' = false) (add : Bool) (rest : List Char) :
    Stops p ((direction add).toList ++ rest) := by
  cases add <;> exact stops_cons hp

theorem expect_reset_direction (add : Bool) (rest : List Char) :
    expect " SET pin = 0 WHERE pin != 0" ((direction add).toList ++ rest) = none := by
  cases add <;> rfl

theorem readPin_chars {s : PinStatement} (h : s.Readable) :
    readPin s.chars = some (s.outline, []) := by
  cases s with
  | shift c r add =>
    have hchars : (PinStatement.shift c r add).chars = pinShift c r add := rfl
    rw [hchars, pinShift_eq]
    unfold readPin
    refine Option.bind_eq_some_iff.2 ⟨_, expect_self _ _, ?_⟩
    refine Option.bind_eq_some_iff.2
      ⟨_, readName_identifier (stops_direction rfl add _) (stops_direction rfl add _) c.table, ?_⟩
    simp only [expect_reset_direction]
    exact readShift_shift h.1 h.2 (nameParts c.table) c.name add
  | reset table =>
    have hchars : (PinStatement.reset table).chars = "UPDATE ".toList ++ (identifier table ++
        (" SET pin = 0 WHERE pin != 0".toList ++ [])) := List.append_assoc _ _ _
    rw [hchars]
    unfold readPin
    refine Option.bind_eq_some_iff.2 ⟨_, expect_self _ _, ?_⟩
    refine Option.bind_eq_some_iff.2
      ⟨_, readName_identifier (stops_cons rfl) (stops_cons rfl) table, ?_⟩
    rfl

/-- What a whole text is read as. -/
def whole? {α : Type} (p : Reader α) (s : String) : Option α :=
  match p s.toList with
  | some (a, []) => some a
  | _ => none

theorem whole?_ofList {α : Type} {p : Reader α} {s : List Char} {a : α} (h : p s = some (a, [])) :
    whole? p (String.ofList s) = some a := by
  unfold whole?
  rw [String.toList_ofList, h]

end Sql

/-- The view statement of a text. -/
def ViewStatement.ofSql? : String → Option ViewStatement := Sql.whole? Sql.readView

/-- The outline of the pin statement of a text. -/
def PinOutline.ofSql? : String → Option PinOutline := Sql.whole? Sql.readPin

theorem ViewStatement.ofSql?_sql {s : ViewStatement} (h : s.Readable) : ofSql? s.sql = some s :=
  Sql.whole?_ofList (Sql.readView_chars h)

theorem PinOutline.ofSql?_sql {s : PinStatement} (h : s.Readable) :
    ofSql? s.sql = some s.outline :=
  Sql.whole?_ofList (Sql.readPin_chars h)

/-- The text of a statement determines the statement. A view statement can be read from its text, a
pin statement up to the blanks around the parts of its names; so statements with the same text are
the same, but for those blanks. -/
theorem sql_determines :
    (∀ s : ViewStatement, s.Readable → ViewStatement.ofSql? s.sql = some s) ∧
      (∀ s : PinStatement, s.Readable → PinOutline.ofSql? s.sql = some s.outline) ∧
      (∀ s s' : ViewStatement, s.Readable → s'.Readable → s.sql = s'.sql → s = s') ∧
      ∀ s s' : PinStatement, s.Readable → s'.Readable → s.sql = s'.sql →
        s.outline = s'.outline := by
  refine ⟨fun s h => ViewStatement.ofSql?_sql h, fun s h => PinOutline.ofSql?_sql h, ?_, ?_⟩
  · intro s s' h h' heq
    have hread := ViewStatement.ofSql?_sql h
    rw [heq, ViewStatement.ofSql?_sql h'] at hread
    exact (Option.some.inj hread).symm
  · intro s s' h h' heq
    have hread := PinOutline.ofSql?_sql h
    rw [heq, PinOutline.ofSql?_sql h'] at hread
    exact (Option.some.inj hread).symm

/-- A record that has in its texts what the text of a statement is made of, and instants at the end
of a leap second, before year 0 and after year 9999. -/
def quotingRecord : ViewRecord where
  id := -9223372036854775808
  timeOriginal := ⟨1483228799, 1999999999, by decide, by decide, by decide⟩
  timeMain := ⟨-62167219201, 1, by decide, by decide, by decide⟩
  layers := .ofList ["", "','", "]::text[], '", "o''brien'"]
  lastUpdate := .told ⟨253402300800, 1000000, by decide, by decide, by decide⟩
  drivingLayer := some "NULL"

theorem quotingRecord_of_sql : quotingRecord.Readable ∧
    ViewStatement.ofSql? (ViewStatement.update quotingRecord).sql = some (.update quotingRecord) := by
  have hreadable : quotingRecord.Readable :=
    ⟨Instant.readable_iff.2 (by decide), Instant.readable_iff.2 (by decide),
      Instant.readable_iff.2 (by decide)⟩
  exact ⟨hreadable, sql_determines.1 (.update quotingRecord) hreadable⟩

end PinLedger
