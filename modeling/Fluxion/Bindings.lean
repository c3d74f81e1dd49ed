import Fluxion.Constant
import Fluxion.Dialogue
import Fluxion.Number.Format
import Fluxion.Text.Escape

/-!
# Bindings: the values of variables

Bindings hold at most one value for a name. A name is looked up first among
the named constants, then among the bindings, and only if both know nothing is
it asked for; so a constant cannot be bound to anything else, and a name that
is bound is never asked for.

## Main results

* `get?_insert_self`, `get?_insert_of_ne`: a binding replaces the one for its
  name and leaves the others alone.
* `resolve_of_constant`, `resolve_of_bound`, `resolve_of_unbound`: the order of
  looking up.
-/

namespace Fluxion

/-- Names with their values. -/
structure Bindings where
  /-- The bindings, the latest first. -/
  entries : List (String × Float)
  /-- No name is bound twice. -/
  distinct : (entries.map Prod.fst).Nodup

namespace Bindings

/-- No bindings. -/
def empty : Bindings := ⟨[], .nil⟩

instance : EmptyCollection Bindings := ⟨empty⟩

/-- The value bound to a name. -/
def get? (b : Bindings) (name : String) : Option Float :=
  b.entries.lookup name

/-- Binds a name to a value, whatever it was bound to before. -/
def insert (b : Bindings) (name : String) (value : Float) : Bindings :=
  { entries := (name, value) :: b.entries.filter (·.1 != name)
    distinct := by
      have hRest : ((b.entries.filter (·.1 != name)).map Prod.fst).Nodup :=
        b.distinct.sublist ((List.filter_sublist).map Prod.fst)
      simpa using hRest }

@[simp] theorem get?_empty (name : String) : empty.get? name = none := rfl

@[simp] theorem get?_insert_self (b : Bindings) (name : String) (value : Float) :
    (b.insert name value).get? name = some value := by
  simp [get?, insert]

private theorem lookup_filter_ne {name other : String} (hNe : other ≠ name)
    (entries : List (String × Float)) :
    (entries.filter (·.1 != name)).lookup other = entries.lookup other := by
  induction entries with
  | nil => rfl
  | cons entry entries ih =>
    obtain ⟨key, value⟩ := entry
    by_cases hKey : key = name
    · have hOther : (other == key) = false := by simpa [hKey] using hNe
      simp [hKey ▸ hOther, List.lookup_cons, ih, hKey]
    · simp [hKey, List.lookup_cons, ih]

@[simp] theorem get?_insert_of_ne {name other : String} (hNe : other ≠ name) (b : Bindings)
    (value : Float) : (b.insert name value).get? other = b.get? other := by
  have hFalse : (other == name) = false := by simpa using hNe
  simp [get?, insert, List.lookup_cons, hFalse, lookup_filter_ne hNe]

/-- The value of a name: that of the constant of this name, else the bound
one, else what the question for it is answered with. -/
def resolve (b : Bindings) (name : String) : Dialogue (Option Float) :=
  match constant? name with
  | some value => .done (some value)
  | none =>
    match b.get? name with
    | some value => .done (some value)
    | none => .ask name .done

theorem resolve_of_constant {name : String} {value : Float}
    (hConstant : constant? name = some value) (b : Bindings) :
    b.resolve name = .done (some value) := by
  simp [resolve, hConstant]

theorem resolve_of_bound {name : String} {value : Float} {b : Bindings}
    (hConstant : constant? name = none) (hBound : b.get? name = some value) :
    b.resolve name = .done (some value) := by
  simp [resolve, hConstant, hBound]

theorem resolve_of_unbound {name : String} {b : Bindings}
    (hConstant : constant? name = none) (hBound : b.get? name = none) :
    b.resolve name = .ask name .done := by
  simp [resolve, hConstant, hBound]

/-- A one-line account of the bindings and of whether there is somebody to
ask for other names. -/
def account (b : Bindings) (canAsk : Bool) : String :=
  let entry (e : String × Float) := Text.quote e.1 ++ ": " ++ String.ofList (Number.explicit e.2)
  "Ctxt \x7b vars: \x7b" ++ ", ".intercalate (b.entries.map entry) ++ "\x7d, resolver: "
    ++ toString canAsk ++ " \x7d"

end Bindings

end Fluxion
