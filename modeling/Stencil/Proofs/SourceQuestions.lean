/-
What a build asks a source.

Shared templates and pages are found in the same way: a source is asked whether it has a directory,
and what the directory holds. A failure to look is a failure of the build, but nothing being there is
an answer, and then there are no entries.
-/
import Stencil.Proofs.Runs
import Stencil.Site.CommonBase

set_option autoImplicit false

namespace Stencil.CommonBase

open Stencil.Runs

variable {id : SourceId} {source : Source} {ext : String} {dir : Path}

/-- Says that a source can be asked what stands at a path: if that fails, it is because nothing
does. -/
def Answers (source : Source) (p : Path) : Prop :=
  ∀ e, source.metadata p = .error e → e.isNotFound = true

/-- A source that is asked for a directory has one or not, if the answer is no failure. -/
theorem hasDirectory_eq_ok_iff {b : Bool} :
    hasDirectory id source dir = .ok b
      ↔ Answers source dir ∧ (b = true ↔ source.metadata dir = .ok .directory) := by
  unfold hasDirectory Answers
  cases hmeta : source.metadata dir with
  | ok kind => cases kind <;> cases b <;> simp
  | error e => cases hfound : e.isNotFound <;> cases b <;> simp [hfound]

/-- The files that a walk finds are those of the source that end in the extension. -/
theorem filesBelow_eq_ok_iff {paths : List Path} :
    (filesBelow id source ext dir).result = .ok paths
      ↔ ∃ entries, source.walk dir = .ok entries
        ∧ paths = (entries.filter fun e =>
            e.kind = .file && Extension.endsPath ext e.path).map Entry.path := by
  unfold filesBelow
  rw [traced_bind_eq_ok]
  refine exists_congr fun entries => and_congr mapError_eq_ok ?_
  split
  · rw [traced_bind_eq_ok]
    exact ⟨fun ⟨_, _, h⟩ => (Except.ok.inj h).symm, fun h => ⟨(), rfl, by rw [h]; rfl⟩⟩
  · exact ⟨fun h => (Except.ok.inj h).symm, fun h => by rw [h]; rfl⟩

/-! ## Entries of a directory -/

variable {ask : Path → Except FileError (List Entry)}

/-- What a source answers about a directory. Where there is none, there are no entries. -/
def entriesOf (source : Source) (dir : Path) (ask : Path → Except FileError (List Entry)) :
    List Entry :=
  match source.metadata dir, ask dir with
  | .ok .directory, .ok entries => entries
  | _, _ => []

theorem entriesOf_of_directory {entries : List Entry} (hmeta : source.metadata dir = .ok .directory)
    (hask : ask dir = .ok entries) : entriesOf source dir ask = entries := by
  unfold entriesOf
  rw [hmeta, hask]

theorem entriesOf_of_not_directory (hmeta : source.metadata dir ≠ .ok .directory) :
    entriesOf source dir ask = [] := by
  unfold entriesOf
  split
  · rename_i hdir _
    exact absurd hdir hmeta
  · rfl

end Stencil.CommonBase
