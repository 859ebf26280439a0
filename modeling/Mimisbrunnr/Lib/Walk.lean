import Mathlib.Data.Fintype.Card
import Mathlib.Data.Fintype.EquivFin
import Mathlib.Logic.Relation

/-!
# Walks

A walk follows a partial function from a state until it has no next one. Among
finitely many states it ends unless it comes back to one of them.
-/

namespace Mimisbrunnr.Lib.Walk

set_option autoImplicit false

open Relation

variable {α : Type} (next : α → Option α)

def Leads (current later : α) : Prop := next current = some later

def Acyclic (start : α) : Prop :=
  ∀ state, ReflTransGen (Leads next) start state → ¬ TransGen (Leads next) state state

end Mimisbrunnr.Lib.Walk
