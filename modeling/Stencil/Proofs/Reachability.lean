/-
What a template puts out depends on what it can reach.

A group may hold any number of templates and functions that one of its templates never asks for. The
names that it may ask for are the ones that calls lead to, however they are nested and in whichever
alternative they stand, and the functions mentioned on the way. Two groups that agree on these give
the same output or the same failure, whatever else they hold. The induction is on the number of
templates that may still be inside each other, so it covers the limit as well: it strikes in both
groups at the same call.
-/
import Stencil.Proofs.Mentions

set_option autoImplicit false

namespace Stencil.Group

/-! ## Names that calls lead to -/

/-- The names that calls lead to from a name, that one included. A name without a template may be
one of them, but leads no further. -/
inductive Reaches (g : Group) (start : String) : String → Prop where
  | start : Reaches g start start
  | call {name next : String} {t : Tree} :
      Reaches g start name → g.tree? name = some t → .template next ∈ t.mentions →
      Reaches g start next

/-- Says that two groups find the same under every name that calls lead to, and that they have the
same functions under the names that are mentioned there. -/
structure AgreesFrom (g g' : Group) (start : String) : Prop where
  tree : ∀ name, g.Reaches start name → g.tree? name = g'.tree? name
  function : ∀ name t f, g.Reaches start name → g.tree? name = some t → .function f ∈ t.mentions →
    g.functions.get? f = g'.functions.get? f

variable {g g' : Group} {start : String}

/-- What has the start and, with a name, all that its template calls, has every name that calls lead
to. -/
theorem Reaches.closed (names : String → Prop) (hstart : names start)
    (hcall : ∀ name t next, names name → g.tree? name = some t → .template next ∈ t.mentions →
      names next)
    {name : String} (h : g.Reaches start name) : names name := by
  induction h with
  | start => exact hstart
  | call _ ht hnext ih => exact hcall _ _ _ ih ht hnext

/-! ## Execution -/

/-- Calls of a name have the same answer if the name finds the same and is executed alike. -/
theorem callsBy_congr {run run' : Tree → Value → Except TemplateError String} {name : String}
    (hname : g.name = g'.name) (htree : g.tree? name = g'.tree? name)
    (hrun : ∀ t, g.tree? name = some t → run t = run' t) :
    g.callsBy run name = g'.callsBy run' name := by
  unfold callsBy
  rw [← htree, ← hname]
  cases ht : g.tree? name with
  | none => rfl
  | some t => exact congrArg Except.ok (hrun t ht)

/-- A call of a name that can be reached has the same answer in both groups, if at most `depth`
templates may be inside each other below it. -/
theorem AgreesFrom.callsBy (hname : g.name = g'.name) (h : g.AgreesFrom g' start) (depth : Nat) :
    ∀ name, g.Reaches start name →
      g.callsBy (g.run depth) name = g'.callsBy (g'.run depth) name := by
  induction depth with
  | zero =>
    intro name hreach
    -- At the limit, both name the template that would have been next.
    exact callsBy_congr hname (h.tree name hreach) fun t _ => rfl
  | succ depth ih =>
    intro name hreach
    refine callsBy_congr hname (h.tree name hreach) fun t ht => ?_
    funext v
    have halike : Scope.Alike ⟨t.name, v, g.functions⟩ g'.functions (g.callsBy (g.run depth))
        (g'.callsBy (g'.run depth)) t.mentions :=
      ⟨fun f hf => h.function name t f hreach ht hf,
        fun next hnext => ih next (.call hreach ht hnext)⟩
    exact Scope.nodes_congr t.root halike

/-- **Only what can be reached matters.** In two groups of one name that agree on what calls lead to
from a name, and on the functions mentioned there, executing the template of this name for any value
gives the same output or the same failure. -/
theorem executeTemplate_congr (hname : g.name = g'.name) (h : g.AgreesFrom g' start) (v : Value) :
    g.executeTemplate start v = g'.executeTemplate start v := by
  unfold executeTemplate
  rw [h.callsBy hname depthLimit start .start]

/-- A template that calls a function for the current value, and then a template that is not there. -/
def greeting : Tree :=
  ⟨"greeting", [.action ⟨.start, [⟨.start, [.function "greet", .dot]⟩]⟩,
    .call .start "missing" none]⟩

/-- A function that repeats its argument. -/
def greet : Function := fun vs => .ok (vs.headD .null)

/-- A group with the greeting only. -/
def quiet : Group :=
  ⟨"hall", "greeting", Table.ofList [("greeting", greeting)], Table.ofList [("greet", greet)]⟩

/-- A group of the same name with another template, another function and another entry. -/
def crowded : Group :=
  ⟨"hall", "noise", Table.ofList [("greeting", greeting), ("noise", ⟨"noise", [.text "!"]⟩)],
    Table.ofList [("greet", greet), ("shout", fun _ => .error .overflow)]⟩

/-- In the quiet group, calls lead from the greeting to the missing template and no further. -/
theorem reaches_quiet {name : String} (h : quiet.Reaches "greeting" name) :
    name = "greeting" ∨ name = "missing" := by
  refine Reaches.closed (fun name => name = "greeting" ∨ name = "missing") (Or.inl rfl) ?_ h
  rintro name t next (rfl | rfl) ht hnext
  · have ht' : greeting = t := Option.some.inj ht
    have hmentions : greeting.mentions = [.function "greet", .template "missing"] := rfl
    rw [← ht', hmentions] at hnext
    exact Or.inr (by simpa using hnext)
  · exact absurd ht.symm (Option.some_ne_none t)

/-- The other group greets in the same way, up to the call that fails in both. -/
theorem executeTemplate_congr_crowded :
    quiet.name = crowded.name ∧ quiet.AgreesFrom crowded "greeting"
      ∧ quiet.executeTemplate "greeting" (.string "hello")
        = crowded.executeTemplate "greeting" (.string "hello") := by
  have hname : quiet.name = crowded.name := rfl
  have hagrees : quiet.AgreesFrom crowded "greeting" := by
    refine ⟨fun name h => ?_, fun name t f h ht hf => ?_⟩
    · rcases reaches_quiet h with rfl | rfl
      · rfl
      · rfl
    · rcases reaches_quiet h with rfl | rfl
      · have ht' : greeting = t := Option.some.inj ht
        have hmentions : greeting.mentions = [.function "greet", .template "missing"] := rfl
        rw [← ht', hmentions] at hf
        obtain rfl : f = "greet" := by simpa using hf
        rfl
      · exact absurd ht.symm (Option.some_ne_none t)
  exact ⟨hname, hagrees, executeTemplate_congr hname hagrees (.string "hello")⟩

end Stencil.Group
