/-
What a source looks at.

A directory asks the disk about nothing but the paths that its root and some names behind it make up,
so two disks that answer alike at all of these are the same to it. For a single path, the names begin
with those of the path, and a path with a step upwards is refused before the disk is asked at all. A
walk is the walker's, which has to stay there too. One that goes depth first does so, although how far
it may go down is computed from the whole disk; but it never goes that far.

Where no links are below the root, answering alike is having the same below the root. So whatever
else is on the disk, a source without links cannot show.
-/
import Stencil.Proofs.PathAnswers
import Stencil.Proofs.WalkDepth

set_option autoImplicit false

namespace Stencil

open Stencil.Runs

/-! ## Disks that answer alike -/

/-- Says that a path leads to the same on two disks, and that they have the same names there. -/
structure Disk.AlikeAt (d d' : Disk) (full : Path) : Prop where
  lookUp : ∀ followLast, d.lookUp full followLast = d'.lookUp full followLast
  names : d.names full = d'.names full

theorem Disk.AlikeAt.bytes {d d' : Disk} {full : Path} (h : d.AlikeAt d' full) :
    d.bytes full = d'.bytes full := by
  unfold Disk.bytes
  rw [h.lookUp]

/-- Says that two sources give the same answers about a path. -/
structure Source.AlikeAt (s s' : Source) (p : Path) : Prop where
  metadata : s.metadata p = s'.metadata p
  list : s.list p = s'.list p
  read : s.read p = s'.read p
  walk : s.walk p = s'.walk p

namespace Directory

variable {dir : Directory} {d d' : Disk} {p : Path} {l : Location}

/-- Says that two disks answer alike at the path of a location below a root and of all those below
it. -/
def AlikeBelow (dir : Directory) (d d' : Disk) (l : Location) : Prop :=
  ∀ k : Location, k.Proper → d.AlikeAt d' (dir.fullPath (l ++ k))

namespace AlikeBelow

theorem here (h : dir.AlikeBelow d d' l) : d.AlikeAt d' (dir.fullPath l) := by
  have hhere := h [] Location.Proper.nil
  rwa [List.append_nil] at hhere

theorem child (h : dir.AlikeBelow d d' l) {name : String} (hname : IsName name) :
    dir.AlikeBelow d d' (l ++ [name]) := by
  intro k hk
  rw [List.append_assoc]
  exact h _ ((Location.proper_singleton hname).append hk)

/-- Going on by a name from the path of a location stays below it. -/
theorem join (h : dir.AlikeBelow d d' l) (hl : l.Proper) {name : String} (hname : IsName name) :
    d.AlikeAt d' ((dir.fullPath l).join ⟨name⟩) := by
  rw [join_fullPath_eq dir hl hname]
  exact (h.child hname).here

end AlikeBelow

/-! ## Questions -/

theorem entryFor_congr {name : String} (h : d.AlikeAt d' ((dir.fullPath l).join ⟨name⟩)) :
    dir.entryFor d l name = dir.entryFor d' l name := by
  unfold entryFor
  dsimp only
  rw [h.lookUp]

theorem list_congr (hp : p.location? = some l) (hd : d.Named) (h : dir.AlikeBelow d d' l) :
    dir.list d p = dir.list d' p := by
  have hl : l.Proper := Path.proper_of_location? hp
  rw [list_of_location hp, list_of_location hp, ← h.here.names]
  cases hnames : d.names (dir.fullPath l) with
  | error cause => rfl
  | ok names =>
    have hentries : ∀ others : List String, (∀ name ∈ others, IsName name) →
        others.mapM (dir.entryFor d l) = others.mapM (dir.entryFor d' l) := by
      intro others hothers
      induction others with
      | nil => rfl
      | cons name rest ih =>
        obtain ⟨hname, hrest⟩ := List.forall_mem_cons.1 hothers
        rw [List.mapM_cons, List.mapM_cons, entryFor_congr (h.join hl hname), ih hrest]
    exact congrArg (· >>= fun entries => .ok (sortByName entries))
      (hentries names (hd.isName_of_names hnames))

end Directory

/-! ## Walks -/

/-- Says of a walker that it looks at nothing but where it starts and what is below: on disks that
answer alike there, it yields the same. -/
def Walker.LooksBelow (walker : Walker) : Prop :=
  ∀ (dir : Directory) (d d' : Disk) (l : Location), d.Named → d'.Named → l.Proper →
    dir.AlikeBelow d d' l →
    walker Directory.walkOptions d (dir.fullPath l) = walker Directory.walkOptions d' (dir.fullPath l)

namespace Walker

variable {options : WalkOptions} {dir : Directory} {d d' : Disk} {l : Location}

theorem found_congr {followLinks : Bool} {above : List Ancestor} {full : Path}
    (h : d.AlikeAt d' full) : found d followLinks above full = found d' followLinks above full := by
  unfold found throughLink
  rw [h.lookUp, h.lookUp]

/-- A walk with a given number of levels is the same on disks that answer alike below where it is. The
induction is on the levels, and going down a name stays below. -/
theorem walkFrom_congr (hl : l.Proper) (hd : d.Named) (h : dir.AlikeBelow d d' l)
    (levels depth : Nat) (above : List Ancestor) {here : Ancestor}
    (hhere : here.path = dir.fullPath l) :
    walkFrom options d levels depth above here = walkFrom options d' levels depth above here := by
  induction levels generalizing l depth above here with
  | zero => rfl
  | succ levels ih =>
    rw [walkFrom, walkFrom, hhere, ← h.here.names]
    cases hnames : d.names (dir.fullPath l) with
    | error cause => rfl
    | ok names =>
      refine List.flatMap_congr fun name hmem => ?_
      have hname : IsName name := hd.isName_of_names hnames name (mem_ordered.1 hmem)
      -- Where a link leads on the disk is not asked: what counts is the path by which it was reached.
      refine visit_congr (found_congr (h.join hl hname)) fun place _ => ?_
      have hbelow : Location.Proper (l ++ [name]) := hl.append (Location.proper_singleton hname)
      exact ih hbelow (h.child hname) _ _ (Directory.join_fullPath_eq dir hl hname)

/-- How far down a walk may go is computed from the whole disk, but it never goes that far. -/
theorem looksBelow_depthFirst : depthFirst.LooksBelow := by
  intro dir d d' l hd hd' hl h
  have hstart : ∀ followLinks, found d followLinks [] (dir.fullPath l)
      = found d' followLinks [] (dir.fullPath l) := fun _ => found_congr h.here
  unfold depthFirst
  refine visit_congr (hstart _) fun place hfound => ?_
  have hleads : Ancestor.Leads ⟨dir.fullPath l, place⟩ d := (found_directory hfound).1
  have hleads' : Ancestor.Leads ⟨dir.fullPath l, place⟩ d' :=
    (found_directory ((hstart _).symm.trans hfound)).1
  -- Either walk goes as far down as it would with the levels of both.
  rw [← walkFrom_eq_of_walkLevels hd hleads 0 (Nat.le_add_right _ (walkLevels d')),
    ← walkFrom_eq_of_walkLevels hd' hleads' 0 (Nat.le_add_left _ (walkLevels d))]
  exact walkFrom_congr hl hd h _ 0 [] rfl

end Walker

/-- What is not below the location of a path has no part in the answers about the path. -/
theorem Directory.source_congr {dir : Directory} {d d' : Disk} {p : Path} {l : Location}
    {walker : Walker} (hwalker : walker.LooksBelow) (hp : p.location? = some l) (hd : d.Named)
    (hd' : d'.Named) (h : dir.AlikeBelow d d' l) :
    (dir.source d walker).AlikeAt (dir.source d' walker) p := by
  refine ⟨?_, list_congr hp hd h, ?_, ?_⟩
  · show dir.metadata d p = dir.metadata d' p
    rw [metadata_of_location hp, metadata_of_location hp, h.here.lookUp]
  · show dir.read d p = dir.read d' p
    rw [read_of_location hp, read_of_location hp, h.here.bytes]
  · show dir.walk walker d p = dir.walk walker d' p
    rw [walk_of_location hp, walk_of_location hp,
      hwalker dir d d' l hd hd' (Path.proper_of_location? hp) h]

/-! ## Disks without links below a root -/

namespace Disk

variable {d d' : Disk} {place : Location}

/-- Says that two disks have the same below a location and list it in the same order, and that no links
are there. -/
structure SameBelow (d d' : Disk) (place : Location) : Prop where
  node : ∀ k, d.node? (place ++ k) = d'.node? (place ++ k)
  arrange : ∀ k names, d.arrange (place ++ k) names = d'.arrange (place ++ k) names
  plain : ∀ k target, d.node? (place ++ k) ≠ some (.link target)

namespace SameBelow

variable (h : SameBelow d d' place)

include h

/-- Names are followed the same way on both disks, and to the location that they spell if to any. The
induction is on the names, and `k` is where they are followed from. -/
theorem advance (followLast : Bool) (k names : Location) :
    d.advance followLast (place ++ k) (names.map .name)
        = d'.advance followLast (place ++ k) (names.map .name) ∧
      ((∃ cause, d.advance followLast (place ++ k) (names.map .name) = .error cause) ∨
        d.advance followLast (place ++ k) (names.map .name)
          = .ok (.location (place ++ (k ++ names)))) := by
  induction names generalizing k with
  | nil =>
    rw [List.append_nil]
    exact ⟨rfl, Or.inr rfl⟩
  | cons name rest ih =>
    have hsplit : k ++ name :: rest = k ++ [name] ++ rest := by simp
    rw [hsplit, List.map_cons, advance_cons, advance_cons, ← h.node k]
    cases d.node? (place ++ k) with
    | none => exact ⟨rfl, Or.inl ⟨_, rfl⟩⟩
    | some node =>
      cases node with
      | file _ | link _ => exact ⟨rfl, Or.inl ⟨_, rfl⟩⟩
      | directory =>
        dsimp only
        by_cases hlong : nameLimit < name.utf8ByteSize
        · rw [if_pos hlong, if_pos hlong]
          exact ⟨rfl, Or.inl ⟨_, rfl⟩⟩
        · rw [if_neg hlong, if_neg hlong, List.append_assoc place, ← h.node (k ++ [name])]
          cases hnext : d.node? (place ++ (k ++ [name])) with
          | none => exact ⟨rfl, Or.inl ⟨_, rfl⟩⟩
          | some next =>
            cases next with
            | file _ | directory => exact ih (k ++ [name])
            | link target =>
              -- A link might lead anywhere, and then the disks need not agree any more.
              exact absurd hnext (h.plain _ target)

/-- Without links, it does not matter how many may still be passed. -/
theorem follow (followLast : Bool) (names : Location) (left left' : Nat) :
    d.follow followLast left place (names.map .name)
        = d'.follow followLast left' place (names.map .name) ∧
      ∀ l, d.follow followLast left place (names.map .name) = .ok l → l = place ++ names := by
  have hadvance := h.advance followLast [] names
  rw [List.append_nil, List.nil_append] at hadvance
  obtain ⟨hsame, hcases⟩ := hadvance
  rw [follow_eq, follow_eq left', ← hsame]
  rcases hcases with ⟨cause, hcause⟩ | hreached
  · rw [hcause]
    exact ⟨rfl, fun l hl => absurd hl (by simp)⟩
  · rw [hreached]
    exact ⟨rfl, fun l hl => (Except.ok.inj hl).symm⟩

end SameBelow

end Disk

namespace Directory

variable {dir : Directory} {d d' : Disk} {place : Location}
  (h : d.SameBelow d' place) (hroot : d.lookUp dir.root true = .ok (place, .directory))
  (hroot' : d'.lookUp dir.root true = .ok (place, .directory))

include h hroot hroot'

/-- The path of a location below the root leads to that location below the place of the root, on both
disks or on neither. -/
theorem locate_congr {l : Location} (hl : l.Proper) (followLast : Bool) :
    d.locate (dir.fullPath l) followLast = d'.locate (dir.fullPath l) followLast ∧
      ∀ k, d.locate (dir.fullPath l) followLast = .ok k → k = place ++ l := by
  obtain ⟨left, hgo⟩ := follow_fullPath hroot hl followLast
  obtain ⟨left', hgo'⟩ := follow_fullPath hroot' hl followLast
  obtain ⟨hsame, hplace⟩ := h.follow followLast l left left'
  unfold Disk.locate
  rw [hgo, hgo', ← hsame]
  refine ⟨rfl, fun k hk => ?_⟩
  split at hk
  · cases hk
  · split at hk
    · cases hk
    · exact hplace k hk

/-- **Nothing but what is below the root shows in a source without links.** Disks that have the same
there answer alike, whatever else they hold and whatever links the root itself leads through. -/
theorem alikeBelow_of_sameBelow : dir.AlikeBelow d d' [] := by
  intro l hl
  rw [List.nil_append]
  have hlookUp : ∀ followLast,
      d.lookUp (dir.fullPath l) followLast = d'.lookUp (dir.fullPath l) followLast := by
    intro followLast
    obtain ⟨hsame, hplace⟩ := locate_congr h hroot hroot' hl followLast
    unfold Disk.lookUp
    rw [← hsame]
    cases hlocate : d.locate (dir.fullPath l) followLast with
    | error cause => rfl
    | ok k =>
      dsimp only [bind, Except.bind]
      rw [hplace k hlocate, h.node l]
  refine ⟨hlookUp, ?_⟩
  unfold Disk.names
  rw [← hlookUp true]
  cases hfound : d.lookUp (dir.fullPath l) true with
  | error cause => rfl
  | ok found =>
    obtain ⟨k, node⟩ := found
    -- So the listing is read off a location at which the disks are the same.
    have hk : k = place ++ l := (locate_congr h hroot hroot' hl true).2 k
      (Disk.lookUp_eq_ok_iff.1 hfound).1
    have hnames : d.namesAt k = d'.namesAt k := by
      apply SortKey.eq_of_sorted id
      · exact d.namesAt_sorted k
      · exact d'.namesAt_sorted k
      · intro name
        rw [Disk.mem_namesAt_iff, Disk.mem_namesAt_iff, hk, List.append_assoc, h.node]
    cases node with
    | file _ | link _ => rfl
    | directory =>
      dsimp only [bind, Except.bind]
      rw [hnames, hk, h.arrange]

end Directory

/-! ## Paths -/

/-- **Paths cannot leave a source.** A path is refused exactly if one of its parts is a step upwards,
which is two dots between slashes; any other leads to the location of its names in order, and the path
of that location leads there too. In memory and in a directory alike, every question about a refused
path fails. A directory goes on to the disk with its own root and names behind it, whatever the path
begins with, and nothing else on the disk has a part in the answers, if its walker does not look at
anything else either. And paths that have the same names get the same answers, but for the path that a
failure names. -/
theorem paths_stay_inside (p : Path) :
    p.location = (if PathPart.parent ∈ p.parts then .error (.pathOutsideRoot p) else .ok p.names) ∧
    (PathPart.parent ∈ p.parts ↔ ['.', '.'] ∈ p.pieces) ∧
    p.names = (p.pieces.filter fun piece => PathPart.IsNamePiece piece).map String.ofList ∧
    (∀ l, p.location = .ok l → l.path.parts = l.map .name ∧ l.path.location = .ok l) ∧
    (∀ m : Memory, m.source.Refuses p ↔ PathPart.parent ∈ p.parts) ∧
    (∀ (dir : Directory) (d : Disk) (walker : Walker),
      (dir.source d walker).Refuses p ↔ PathPart.parent ∈ p.parts) ∧
    (∀ (dir : Directory) (l : Location), p.location = .ok l →
      (∀ k : Location, k.Proper →
        (dir.fullPath (l ++ k)).parts = dir.root.parts ++ (l ++ k).map .name) ∧
      ∀ walker : Walker, walker.LooksBelow →
        ∀ d d' : Disk, d.Named → d'.Named → dir.AlikeBelow d d' l →
          (dir.source d walker).AlikeAt (dir.source d' walker) p) ∧
    ∀ q : Path, PathPart.parent ∉ p.parts → PathPart.parent ∉ q.parts → p.names = q.names →
      (∀ m : Memory, m.source.SameAt p q) ∧
        ∀ (dir : Directory) (d : Disk) (walker : Walker), (dir.source d walker).SameAt p q := by
  have hproper : ∀ {l}, p.location = .ok l → p.location? = some l ∧ l.Proper := by
    intro l hl
    have hl? := Path.location?_eq_some_iff.2 (Path.location_eq_ok_iff.1 hl)
    exact ⟨hl?, Path.proper_of_location? hl?⟩
  refine ⟨?_, p.parent_mem_parts_iff, p.names_eq, ?_, fun m => Memory.refuses_iff,
    fun dir d walker => Directory.refuses_iff, ?_, ?_⟩
  · by_cases hparent : PathPart.parent ∈ p.parts
    · rw [if_pos hparent]
      exact Path.location_eq_error_iff.2 ⟨hparent, rfl⟩
    · rw [if_neg hparent]
      exact Path.location_eq_ok_iff.2 ⟨hparent, rfl⟩
  · intro l hl
    obtain ⟨_, hnames⟩ := hproper hl
    exact ⟨hnames.parts_path, hnames.location_path⟩
  · intro dir l hl
    obtain ⟨hl?, hnames⟩ := hproper hl
    exact ⟨fun k hk => Directory.parts_fullPath_eq dir (hnames.append hk),
      fun walker hwalker d d' hd hd' h => Directory.source_congr hwalker hl? hd hd' h⟩
  · intro q hp hq hnames
    have hp? := Path.location?_of_no_parent hp
    have hq? := Path.location?_of_no_parent hq
    rw [← hnames] at hq?
    exact ⟨fun m => Memory.sameAt_of_location hp? hq?,
      fun dir d walker => Directory.sameAt_of_location hp? hq?⟩

/-- A disk with a page in a directory and something else beside the directory. -/
def Disk.besideSite (other : DiskNode) : Disk :=
  ((Disk.empty.set ["site"] .directory).set ["site", "a.html"] (.file "page".toUTF8)).set ["other"]
    other

/-- A page is read from a directory by two spellings of its path, whatever is beside the directory. -/
theorem paths_stay_inside_besideSite :
    Directory.read ⟨⟨"/site"⟩⟩ (.besideSite .directory) ⟨"./a.html"⟩ = .ok "page" ∧
      Walker.depthFirst.LooksBelow ∧
      (Directory.source ⟨⟨"/site"⟩⟩ (.besideSite .directory)).AlikeAt
        (Directory.source ⟨⟨"/site"⟩⟩ (.besideSite (.link ⟨"site"⟩))) ⟨"./a.html"⟩ ∧
      (Directory.source ⟨⟨"/site"⟩⟩ (.besideSite .directory)).SameAt ⟨"./a.html"⟩ ⟨"//a.html/"⟩ := by
  have hsame : Disk.SameBelow (.besideSite .directory) (.besideSite (.link ⟨"site"⟩)) ["site"] := by
    refine ⟨fun k => ?_, fun _ _ => rfl, fun k target => ?_⟩
    · simp [Disk.besideSite, Disk.node?, Disk.set]
    · by_cases hsite : k = []
      · simp [Disk.besideSite, Disk.node?, Disk.set, hsite]
      · by_cases hpage : k = ["a.html"]
        · simp [Disk.besideSite, Disk.node?, Disk.set, hpage]
        · simp [Disk.besideSite, Disk.node?, Disk.set, hsite, hpage, Disk.empty]
  have hroot : ∀ other, (Disk.besideSite other).locate ⟨"/site"⟩ true = .ok ["site"] →
      (Disk.besideSite other).lookUp ⟨"/site"⟩ true = .ok (["site"], .directory) := by
    intro other hlocate
    refine Disk.lookUp_eq_ok_iff.2 ⟨hlocate, ?_⟩
    simp [Disk.besideSite, Disk.node?, Disk.set]
  have hbelow : Directory.AlikeBelow ⟨⟨"/site"⟩⟩ (.besideSite .directory)
      (.besideSite (.link ⟨"site"⟩)) [] :=
    Directory.alikeBelow_of_sameBelow hsame (hroot _ (by rw [← toOption_eq_some]; decide +kernel))
      (hroot _ (by rw [← toOption_eq_some]; decide +kernel))
  have hpage : Directory.AlikeBelow ⟨⟨"/site"⟩⟩ (.besideSite .directory)
      (.besideSite (.link ⟨"site"⟩)) ["a.html"] :=
    hbelow.child (by decide +kernel : IsName "a.html")
  obtain ⟨_, _, _, _, _, _, hreach, hspellings⟩ := paths_stay_inside ⟨"./a.html"⟩
  refine ⟨?_, Walker.looksBelow_depthFirst, ?_, ?_⟩
  · have hlocate : (Disk.besideSite .directory).locate
        (Directory.fullPath ⟨⟨"/site"⟩⟩ ["a.html"]) true = .ok ["site", "a.html"] := by
      rw [← toOption_eq_some]
      decide +kernel
    refine Directory.read_of_lookUp (by decide +kernel) (Disk.lookUp_eq_ok_iff.2 ⟨hlocate, ?_⟩)
    simp [Disk.besideSite, Disk.node?, Disk.set]
  · refine (hreach ⟨⟨"/site"⟩⟩ ["a.html"] ?_).2 .depthFirst Walker.looksBelow_depthFirst _ _
      (by decide +kernel) (by decide +kernel) hpage
    rw [← toOption_eq_some]
    decide +kernel
  · obtain ⟨_, hdisk⟩ :=
      hspellings ⟨"//a.html/"⟩ (by decide +kernel) (by decide +kernel) (by decide +kernel)
    exact hdisk _ _ _

end Stencil
