import PinLedger.Sql.Quote
import PinLedger.Statement

/-!
# PinLedger.Sql.Statement

The SQL text of the statements.

* `Sql.pinShift`, `Sql.pinReset` — changes of pin counts
* `Sql.insertView`, `Sql.updateView`, `Sql.deleteView` — changes of view records
* `PinStatement.sql`, `ViewStatement.sql` — the text of a statement
* `Sql.nearestTimestamp` — the query for the row time nearest to an instant
-/

namespace PinLedger.Sql

open Text

def viewsTable : String := "views"

def runTable : String := "pinning_run"

def tryAdvisoryLock : String := "SELECT pg_try_advisory_lock($1) AS ok"

def advisoryUnlock : String := "SELECT pg_advisory_unlock($1) AS ok"

def truncateViews : String := "TRUNCATE TABLE views"

/-- One up or down for the rows of a range. Going down leaves out the rows that are at zero. -/
def pinShift (c : Column) (r : TimeRange) (add : Bool) : List Char :=
  "UPDATE ".toList ++ identifier c.table ++
    (if add then " SET pin = pin + 1 WHERE ".toList else " SET pin = pin - 1 WHERE ".toList) ++
    identifier c.name ++ " BETWEEN ".toList ++ timestamp r.start ++ " AND ".toList ++
    timestamp r.stop ++ (if add then [] else " AND pin > 0".toList)

def pinReset (table : String) : List Char :=
  "UPDATE ".toList ++ identifier table ++ " SET pin = 0 WHERE pin != 0".toList

def insertView (r : ViewRecord) : List Char :=
  ("INSERT INTO views (view_id, time_original, time_main, layers_list, last_update, " ++
    "driving_layer) VALUES (").toList ++
    joined ", ".toList
      [integer r.id, timestamp r.timeOriginal, timestamp r.timeMain, textArray r.layers.toList,
        stamp r.lastUpdate, optionalText r.drivingLayer] ++ [')']

def updateView (r : ViewRecord) : List Char :=
  "UPDATE views SET time_original = ".toList ++ timestamp r.timeOriginal ++
    ", time_main = ".toList ++ timestamp r.timeMain ++
    ", layers_list = ".toList ++ textArray r.layers.toList ++
    ", last_update = ".toList ++ stamp r.lastUpdate ++
    ", driving_layer = ".toList ++ optionalText r.drivingLayer ++
    " WHERE view_id = ".toList ++ integer r.id

def deleteView (id : Int) : List Char :=
  "DELETE FROM views WHERE view_id = ".toList ++ integer id

/-- The value of the column nearest to the instant bound as `$1`, the earlier of two at the same
distance. -/
def nearestTimestamp (c : Column) : List Char :=
  let table := identifier c.table
  let column := identifier c.name
  let side (comparison order : String) : List Char :=
    "(SELECT ".toList ++ column ++ " AS candidate FROM ".toList ++ table ++ " WHERE ".toList ++
      column ++ s!" {comparison} $1 ORDER BY ".toList ++ column ++ s!" {order} LIMIT 1)".toList
  "SELECT candidate::timestamptz AS nearest FROM (".toList ++ side "<=" "DESC" ++
    " UNION ALL ".toList ++ side ">=" "ASC" ++ ") AS candidates ".toList ++
    ("ORDER BY abs(extract(epoch FROM (candidate::timestamptz - $1))) ASC, candidate ASC " ++
      "LIMIT 1").toList

end PinLedger.Sql

namespace PinLedger

def PinStatement.chars : PinStatement → List Char
  | .shift c r add => Sql.pinShift c r add
  | .reset t => Sql.pinReset t

def PinStatement.sql (s : PinStatement) : String := String.ofList s.chars

def ViewStatement.chars : ViewStatement → List Char
  | .insert r => Sql.insertView r
  | .update r => Sql.updateView r
  | .delete id => Sql.deleteView id

def ViewStatement.sql (s : ViewStatement) : String := String.ofList s.chars

end PinLedger
