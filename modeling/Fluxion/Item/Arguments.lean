import Fluxion.Item.Basic
import Fluxion.Token.Priority

/-!
# Cutting a call at its commas

The items behind the name of a call are cut at the commas that lie directly
inside its parentheses. Commas of calls among the arguments are covered by
those calls and are not looked at. A comma at any other depth separates
nothing: it ends the cutting, and the items since the last good comma, which
it makes meaningless, make no argument any more.

## Main results

* `length_le_of_mem_argumentsOf`: an argument has no more items than the call has
  behind its name.
-/

namespace Fluxion.Item

/-- The items of one argument. -/
structure Argument where
  /-- What the argument follows, the name of the call or a comma: the region
  to point at if the argument has no items. -/
  follows : Span
  /-- The items. -/
  items : List Item
  deriving DecidableEq, Repr

/-- What a call has between its parentheses. -/
structure Arguments where
  /-- The arguments, in order. -/
  arguments : List Argument
  /-- The comma that separates nothing, if the cutting stopped at one. -/
  misplaced : Option Span
  deriving DecidableEq, Repr

namespace Arguments

/-- Puts an item in front of the first argument, if there is one. -/
def consItem (item : Item) (cut : Arguments) : Arguments :=
  match cut.arguments with
  | [] => cut
  | first :: others =>
    { cut with arguments := { first with items := item :: first.items } :: others }

/-- Puts an argument in front of the others. -/
def consArgument (argument : Argument) (cut : Arguments) : Arguments :=
  { cut with arguments := argument :: cut.arguments }

/-- The items cut at the commas of the given priority. The first `skip` items
are covered by a call; what stands first follows the region `follows`. -/
def cutAt (separator : Int) (skip : Nat) (follows : Span) : List Item → Arguments
  | [] => ⟨[⟨follows, []⟩], none⟩
  | item :: rest =>
    match skip with
    | skip + 1 => (cutAt separator skip follows rest).consItem item
    | 0 =>
      if item.token.kind = .comma then
        if item.priority = separator then
          (cutAt separator item.covered item.token.span rest).consArgument ⟨follows, []⟩
        else ⟨[], some item.token.span⟩
      else (cutAt separator item.covered follows rest).consItem item

private theorem length_le_consItem {item : Item} {cut : Arguments} {bound : Nat}
    (hCut : ∀ a ∈ cut.arguments, a.items.length ≤ bound) :
    ∀ a ∈ (cut.consItem item).arguments, a.items.length ≤ bound + 1 := by
  intro a ha
  unfold consItem at ha
  split at ha
  · exact Nat.le_succ_of_le (hCut a ha)
  · next first others hEq =>
    rw [hEq] at hCut
    rcases List.mem_cons.1 ha with rfl | hMem
    · simpa using hCut first (by simp)
    · exact Nat.le_succ_of_le (hCut a (by simp [hMem]))

/-- An argument has no more items than there were to cut. -/
theorem length_le_of_mem_cutAt {separator : Int} {items : List Item} {skip : Nat} {follows : Span}
    {a : Argument} (ha : a ∈ (cutAt separator skip follows items).arguments) :
    a.items.length ≤ items.length := by
  induction items generalizing skip follows a with
  | nil => simp [cutAt] at ha; simp [ha]
  | cons item rest ih =>
    unfold cutAt at ha
    split at ha
    · exact length_le_consItem (fun _ h => ih h) a ha
    · split at ha
      · split at ha
        · rcases List.mem_cons.1 ha with rfl | hMem
          · simp
          · exact Nat.le_succ_of_le (ih hMem)
        · cases ha
      · exact length_le_consItem (fun _ h => ih h) a ha

end Arguments

/-- What a call of the given name has between its parentheses. Nothing makes
no arguments, not one without items; its commas lie one pair of parentheses
deeper than the name. -/
def argumentsOf (name : Item) (items : List Item) : Arguments :=
  if items.isEmpty then ⟨[], none⟩
  else Arguments.cutAt (name.priority + Token.nestingStep) 0 name.token.span items

/-- An argument has no more items than the call has behind its name. -/
theorem length_le_of_mem_argumentsOf {name : Item} {items : List Item} {a : Argument}
    (ha : a ∈ (argumentsOf name items).arguments) : a.items.length ≤ items.length := by
  unfold argumentsOf at ha
  split at ha
  · cases ha
  · exact Arguments.length_le_of_mem_cutAt ha

end Fluxion.Item
