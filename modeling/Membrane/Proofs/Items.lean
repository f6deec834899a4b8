import Membrane.Proofs.Quiet
import Membrane.Prototype.ListFunction

/-!
# Items of a list

What reading and replacing the items of a list comes to when the target is a list.

## Main results

* `listItems_eq_ok_of_list?`, `listValues_eq_ok`: the items are read.
* `putItems_apply`, `modify_changeItems`: they are replaced.
-/

namespace Membrane

open Host (Value)

variable {target : Value} {items : List Value} {w : World}

theorem listItems_eq_ok_of_list? (hlist : w.list? target = some items.toArray) :
    listItems target w = .ok items.toArray w := by
  rw [listItems_apply, hlist]

theorem listValues_eq_ok (hlist : w.list? target = some items.toArray) :
    listValues target w = .ok items w :=
  Run.bind_of_ok (listItems_eq_ok_of_list? hlist)

theorem looks_listValues (target : Value) : (listValues target).Looks :=
  .bind (looks_listItems target) fun _ => .pure _

theorem putItems_apply (target : Value) (items : List Value) (w : World) :
    putItems target items w = .ok () (w.putData target (.list items.toArray)) :=
  rfl

/-- To change the items of a list is to put other items in their place. -/
theorem modify_changeItems {change : Array Value → Array Value} {left : List Value}
    (hlist : w.list? target = some items.toArray) (hchange : change items.toArray = left.toArray) :
    (modify (·.changeItems target change) : Run Unit) w =
      .ok () (w.putData target (.list left.toArray)) := by
  rw [← hchange, ← World.changeItems_eq_putData hlist]
  rfl

end Membrane
