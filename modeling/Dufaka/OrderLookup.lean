import Dufaka.Encodings
import Dufaka.OrderPages

/-!
# The checked lookup of an order

The number comes from a URL as bytes. The lookup tests it, reads the order, and asks the database
once more before it says that there is none; each read may fail. The inner read has a test of its
own, with another bound.
-/

namespace Dufaka
open Relational Encoding

/-! ### Numbers as bytes -/

namespace DB

/-- The order that a number names: it is not deleted, and the column can hold its number, which has
no control characters. -/
def HasOrder (d : DB) (s : Bytes) (id : ℕ) (o : Order) : Prop :=
  d.orders.get? id = some o ∧ o.deleted = false ∧ utf8 o.orderSn = s ∧ o.orderSn.length ≤ 150 ∧
    o.orderSn.any isControl = false

section Lookup
variable {d : DB} {ans : Answers} {sn : Text} {id : ℕ} {o : Order}

theorem HasOrder.liveOrder (hunique : d.UniqueSn) (h : d.HasOrder (utf8 sn) id o) :
    d.liveOrder sn = some (id, o) := by
  obtain ⟨hget, hdel, hsn, -⟩ := h
  obtain rfl := utf8_injective hsn
  refine Table.find?_eq_some_of_unique hget (by simp [hdel]) ?_
  intro j o' ho' hj
  simp only [Bool.and_eq_true, decide_eq_true_eq] at hj
  exact hunique j id o' o ho' hget hj.1

end Lookup

end DB

end Dufaka
