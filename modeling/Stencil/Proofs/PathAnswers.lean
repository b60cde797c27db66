/-
The same path in another spelling.

A source looks at a path once, for the location to which it leads, and goes on with the location. The
path as it was written comes up again only in a failure, which says where it arose. So paths that
lead to the same location get the same answers, except that a failure at the one is a failure at the
other; and a path that leads to none is refused, whatever the question.
-/
import Stencil.Proofs.DiskTrees
import Stencil.Proofs.PathReading

set_option autoImplicit false

namespace Stencil

namespace FileError

/-- The path that a failure names. -/
def path : FileError → Path
  | .notFound p | .io p _ | .invalidUtf8 p | .pathOutsideRoot p => p

/-- The same failure at another path. -/
def movedTo (q : Path) : FileError → FileError
  | .notFound _ => .notFound q
  | .io _ cause => .io q cause
  | .invalidUtf8 _ => .invalidUtf8 q
  | .pathOutsideRoot _ => .pathOutsideRoot q

end FileError

/-! ## Answers to two spellings -/

/-- Says that an answer to a question about `p` is, for the same question about `q`, another one: the
same, or the same failure but at the path that was asked about. -/
inductive SameAnswer {α : Type} (p q : Path) : Except FileError α → Except FileError α → Prop
  | same (x : Except FileError α) : SameAnswer p q x x
  | failures (e : FileError) : e.path = p → SameAnswer p q (.error e) (.error (e.movedTo q))

namespace SameAnswer

variable {α β : Type} {p q : Path}

theorem bind {x y : Except FileError α} {f g : α → Except FileError β} (h : SameAnswer p q x y)
    (hnext : ∀ a, SameAnswer p q (f a) (g a)) : SameAnswer p q (x >>= f) (y >>= g) := by
  cases h with
  | same =>
    cases x with
    | error e => exact .same _
    | ok a => exact hnext a
  | failures e he => exact .failures e he

theorem of_notFound : SameAnswer (α := α) p q (.error (.notFound p)) (.error (.notFound q)) :=
  .failures (.notFound p) rfl

/-- A refusal of the system is a failure at the path that was asked about. -/
theorem answer (r : Except IoCause α) : SameAnswer p q (Directory.answer p r) (Directory.answer q r) := by
  cases r with
  | ok a => exact .same (.ok a)
  | error cause =>
    show SameAnswer p q (.error (FileError.ofCause p cause)) (.error (FileError.ofCause q cause))
    unfold FileError.ofCause
    -- Which of the two failures it is depends on the cause alone.
    by_cases hmissing : cause.isMissing = true
    · rw [if_pos hmissing, if_pos hmissing]
      exact of_notFound
    · rw [if_neg hmissing, if_neg hmissing]
      exact .failures (.io p cause) rfl

end SameAnswer

namespace Source

/-- Says that a source refuses a path for leading outside, whatever it is asked. -/
structure Refuses (s : Source) (p : Path) : Prop where
  metadata : s.metadata p = .error (.pathOutsideRoot p)
  list : s.list p = .error (.pathOutsideRoot p)
  read : s.read p = .error (.pathOutsideRoot p)
  walk : s.walk p = .error (.pathOutsideRoot p)

/-- Says that a source takes two paths for the same. -/
structure SameAt (s : Source) (p q : Path) : Prop where
  metadata : SameAnswer p q (s.metadata p) (s.metadata q)
  list : SameAnswer p q (s.list p) (s.list q)
  read : SameAnswer p q (s.read p) (s.read q)
  walk : SameAnswer p q (s.walk p) (s.walk q)

end Source

/-! ## Memory -/

namespace Memory

variable {m : Memory} {p q : Path} {l : Location}

theorem list_of_location (hp : p.location? = some l) :
    m.list p = if m.isDirectory l then .ok (m.entriesAt l) else .error (.notFound p) := by
  unfold list
  rw [Path.location_of_some hp]
  rfl

theorem refuses_of_none (hp : p.location? = none) : m.source.Refuses p := by
  have hlocation := Path.location_of_none hp
  obtain ⟨n, hn⟩ := m.exists_levels
  have hlist : m.list p = .error (.pathOutsideRoot p) := by
    unfold list
    rw [hlocation]
    rfl
  refine ⟨?_, hlist, ?_, ?_⟩
  · show m.metadata p = _
    unfold metadata
    rw [hlocation]
    rfl
  · show m.read p = _
    unfold read
    rw [hlocation]
    rfl
  · show Source.walkBy m.list m.levels p = _
    rw [hn, Source.walkBy, hlist]
    rfl

/-- A tree refuses a path exactly if the path has a step upwards. -/
theorem refuses_iff : m.source.Refuses p ↔ PathPart.parent ∈ p.parts := by
  rw [← Path.location?_eq_none_iff]
  refine ⟨fun h => ?_, refuses_of_none⟩
  cases hp : p.location? with
  | none => rfl
  | some l =>
    have hmetadata : m.metadata p = .error (.pathOutsideRoot p) := h.metadata
    rw [metadata_of_location hp] at hmetadata
    split at hmetadata
    · cases hmetadata
    · split at hmetadata <;> cases hmetadata

theorem sameAt_of_location (hp : p.location? = some l) (hq : q.location? = some l) :
    m.source.SameAt p q := by
  have hlist : SameAnswer p q (m.list p) (m.list q) := by
    rw [list_of_location hp, list_of_location hq]
    split
    · exact .same _
    · exact .of_notFound
  refine ⟨?_, hlist, ?_, ?_⟩
  · show SameAnswer p q (m.metadata p) (m.metadata q)
    rw [metadata_of_location hp, metadata_of_location hq]
    split
    · exact .same _
    · split
      · exact .same _
      · exact .of_notFound
  · show SameAnswer p q (m.read p) (m.read q)
    rw [read_of_location hp, read_of_location hq]
    split
    · exact .same _
    · exact .of_notFound
  · -- Only the first listing of a walk is asked for by the path.
    obtain ⟨n, hn⟩ := m.exists_levels
    show SameAnswer p q (Source.walkBy m.list m.levels p) (Source.walkBy m.list m.levels q)
    rw [hn, Source.walkBy, Source.walkBy]
    exact hlist.bind fun entries => .same _

end Memory

/-! ## Disks -/

namespace Directory

variable {dir : Directory} {d : Disk} {walker : Walker} {p q : Path} {l : Location}

theorem refuses_of_none (hp : p.location? = none) : (dir.source d walker).Refuses p := by
  have hlocation := Path.location_of_none hp
  refine ⟨?_, ?_, ?_, ?_⟩
  · show dir.metadata d p = _
    unfold metadata
    rw [hlocation]
    rfl
  · show dir.list d p = _
    unfold list
    rw [hlocation]
    rfl
  · show dir.read d p = _
    unfold read
    rw [hlocation]
    rfl
  · show dir.walk walker d p = _
    unfold walk
    rw [hlocation]
    rfl

/-- A directory refuses a path exactly if the path has a step upwards. What the disk refuses is another
failure. -/
theorem refuses_iff : (dir.source d walker).Refuses p ↔ PathPart.parent ∈ p.parts := by
  rw [← Path.location?_eq_none_iff]
  refine ⟨fun h => ?_, refuses_of_none⟩
  cases hp : p.location? with
  | none => rfl
  | some l =>
    have hmetadata : dir.metadata d p = .error (.pathOutsideRoot p) := h.metadata
    rw [metadata_of_location hp] at hmetadata
    cases hfound : d.lookUp (dir.fullPath l) true with
    | ok found =>
      -- An answer is no refusal.
      rw [hfound] at hmetadata
      cases hmetadata
    | error cause =>
      rw [hfound] at hmetadata
      exact absurd (Except.error.inj hmetadata) (FileError.ofCause_ne_pathOutsideRoot p p cause)

theorem sameAt_of_location (hp : p.location? = some l) (hq : q.location? = some l) :
    (dir.source d walker).SameAt p q := by
  refine ⟨?_, ?_, ?_, ?_⟩
  · show SameAnswer p q (dir.metadata d p) (dir.metadata d q)
    rw [metadata_of_location hp, metadata_of_location hq]
    exact (SameAnswer.answer _).bind fun found => .same _
  · show SameAnswer p q (dir.list d p) (dir.list d q)
    rw [list_of_location hp, list_of_location hq]
    exact (SameAnswer.answer _).bind fun names => .same _
  · show SameAnswer p q (dir.read d p) (dir.read d q)
    rw [read_of_location hp, read_of_location hq]
    refine (SameAnswer.answer _).bind fun content => ?_
    split
    · exact .same _
    · exact .failures (.invalidUtf8 p) rfl
  · show SameAnswer p q (dir.walk walker d p) (dir.walk walker d q)
    -- A walk starts at the full path of the location, and that is what its failures name.
    rw [walk_of_location hp, walk_of_location hq]
    exact .same _

end Directory

end Stencil
