import Mathlib.Data.List.Basic
import RecordServer.Parser.Registry

/-!
# Declared parsers

Only split parsers refer to others. So parsers of which none does are accepted together, whatever they are called and
in whichever order their chains are followed (`Parsers.ofDeclarations_alone`).
-/

namespace RecordServer

theorem forM_ok {ε α : Type} {f : α → Except ε Unit} : ∀ {l : List α}, (∀ a ∈ l, f a = .ok ()) → l.forM f = .ok ()
  | [], _ => rfl
  | a :: l, h => by
    obtain ⟨hfirst, hrest⟩ := List.forall_mem_cons.1 h
    show (f a >>= fun _ => l.forM f) = .ok ()
    rw [hfirst]
    exact forM_ok hrest

namespace Parsers

/-- A parser that is found has been declared. -/
theorem mem_of_findIn {entries : List Parser} {name : String} {p : Parser} (h : findIn entries name = some p) :
    p ∈ entries := by
  unfold findIn at h
  rw [List.findRev?_eq_find?_reverse] at h
  exact List.mem_reverse.1 (List.mem_of_find?_eq_some h)

/-- **Parsers which refer to no others are accepted**, if their formats are complete. -/
theorem ofDeclarations_alone {declared : List Parser}
    (h : ∀ p ∈ builtIn ++ declared, p.format.inner? = none ∧ checkFormat p = .ok ()) :
    ofDeclarations declared = .ok ⟨builtIn ++ declared⟩ := by
  have hchain (name : String) : checkChain (builtIn ++ declared) name = .ok () := by
    have hend : ((findIn (builtIn ++ declared) name).bind fun p => p.format.inner?) = none := by
      cases hfound : findIn (builtIn ++ declared) name with
      | none => rfl
      | some p => exact (h p (mem_of_findIn hfound)).1
    unfold checkChain
    rw [hend]
    rfl
  have hformats : (builtIn ++ declared).forM checkFormat = .ok () := forM_ok fun p hp => (h p hp).2
  have hchains (names : List String) : names.forM (checkChain (builtIn ++ declared)) = .ok () :=
    forM_ok fun name _ => hchain name
  unfold ofDeclarations
  simp only [hformats, hchains]
  rfl

end Parsers

end RecordServer
