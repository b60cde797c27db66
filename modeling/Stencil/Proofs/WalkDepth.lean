/-
How deep a walk goes.

A walk that goes depth first is given a number of levels, computed from nothing but how much is on the
disk, and takes one whenever it goes down into a directory. They are always enough, so a walk with
any more of them is the same walk.

A step down into a directory itself leads to a location with one name more, and so there are fewer
locations left that have more names still. A step through a link leads anywhere, but never to a
directory in which the walk is already, and so there are fewer places left that the walk is not in.
A number that counts the places first and the longer locations second becomes smaller with either
step, and at the start it is less than the levels.
-/
import Mathlib.Data.Finset.Card
import Stencil.Proofs.DiskNames

set_option autoImplicit false

namespace Stencil

open Stencil.Runs

/-! ## Look-ups -/

namespace Disk

variable {d : Disk} {p : Path} {l : Location} {node : DiskNode} {followLast : Bool}

/-- Passing over a link at the end makes a difference only where there is one. -/
theorem advance_last (here : Location) (ps : List PathPart) :
    d.advance true here ps = d.advance false here ps ∨
      ∃ l target, d.advance false here ps = .ok (.location l) ∧ d.node? l = some (.link target) := by
  induction ps generalizing here with
  | nil => exact Or.inl rfl
  | cons part rest ih =>
    rw [advance_cons, advance_cons]
    cases d.node? here with
    | none => exact Or.inl rfl
    | some node =>
      cases node with
      | file _ | link _ => exact Or.inl rfl
      | directory =>
        cases part with
        | root | current | parent => exact ih _
        | name s =>
          dsimp only
          by_cases hlong : nameLimit < s.utf8ByteSize
          · rw [if_pos hlong, if_pos hlong]
            exact Or.inl rfl
          · rw [if_neg hlong, if_neg hlong]
            cases hnext : d.node? (here ++ [s]) with
            | none => exact Or.inl rfl
            | some next =>
              cases next with
              | file _ | directory => exact ih _
              | link target =>
                -- Only with nothing behind it is the link at the end.
                cases rest with
                | nil => exact Or.inr ⟨here ++ [s], target, rfl, hnext⟩
                | cons _ _ => exact Or.inl rfl

theorem follow_last {links : Nat} {here : Location} {ps : List PathPart}
    (h : d.follow false links here ps = .ok l) (hplain : ∀ target, d.node? l ≠ some (.link target)) :
    d.follow true links here ps = .ok l := by
  induction links using Nat.strongRecOn generalizing here ps with
  | ind links ih =>
    rw [follow_eq] at h ⊢
    rcases d.advance_last here ps with hsame | ⟨l', target, hadvance, hlink⟩
    · rw [hsame]
      cases hadvance : d.advance false here ps with
      | error cause =>
        rw [hadvance] at h
        cases h
      | ok reached =>
        rw [hadvance] at h
        cases reached with
        | location l' => exact h
        | link within target rest =>
          cases links with
          | zero => cases h
          | succ left => exact ih left (Nat.lt_succ_self left) h
    · -- The way would end on a link, and what has been reached is none.
      rw [hadvance] at h
      rw [Except.ok.inj h] at hlink
      exact absurd hlink (hplain target)

/-- What a look-up finds that is no link is found as well when links are looked through. -/
theorem lookUp_last (h : d.lookUp p false = .ok (l, node)) (hplain : ∀ target, node ≠ .link target) :
    d.lookUp p true = .ok (l, node) := by
  obtain ⟨hlocate, hnode⟩ := lookUp_eq_ok_iff.1 h
  refine lookUp_eq_ok_iff.2 ⟨?_, hnode⟩
  obtain ⟨_, _, hfollow⟩ := locate_eq_ok hlocate
  unfold locate at hlocate ⊢
  split at hlocate
  · cases hlocate
  · rename_i hempty
    split at hlocate
    · cases hlocate
    · rename_i hnul
      rw [if_neg hempty, if_neg hnul]
      refine follow_last hfollow fun target hlink => ?_
      rw [hnode] at hlink
      exact hplain target (Option.some.inj hlink)

/-- A name behind a path leads, if anywhere, to that name where the path leads. -/
theorem locate_join {name : String} (hname : IsName name) {here : Location}
    (hp : d.locate p true = .ok here) (h : d.locate (p.join ⟨name⟩) false = .ok l) :
    l = here ++ [name] := by
  obtain ⟨hempty, _, _⟩ := locate_eq_ok hp
  obtain ⟨_, _, hfollow⟩ := locate_eq_ok h
  obtain ⟨left, hgo⟩ := follow_behind false hp (List.cons_ne_nil (.name name) [])
  rw [steps_join hempty hname, hgo, follow_eq, advance_cons] at hfollow
  cases hnode : d.node? here with
  | none => simp [hnode] at hfollow
  | some node =>
    cases node with
    | file _ | link _ => simp [hnode] at hfollow
    | directory =>
      rw [hnode] at hfollow
      dsimp only at hfollow
      by_cases hlong : nameLimit < name.utf8ByteSize
      · rw [if_pos hlong] at hfollow
        cases hfollow
      · rw [if_neg hlong] at hfollow
        cases hnext : d.node? (here ++ [name]) with
        | none => simp [hnext] at hfollow
        | some next =>
          rw [hnext] at hfollow
          cases next with
          | file _ | directory | link _ => exact (Except.ok.inj hfollow).symm

/-! ## Places -/

/-- All locations at which a disk has something, its top among them. -/
def places (d : Disk) : Finset Location := insert [] d.nodes.keys.toFinset

theorem mem_places (h : d.node? l = some node) : l ∈ d.places := by
  unfold node? at h
  unfold places
  by_cases hl : l = []
  · rw [hl]
    exact Finset.mem_insert_self _ _
  · rw [if_neg (by simpa using hl)] at h
    refine Finset.mem_insert_of_mem (List.mem_toFinset.2 (Table.mem_keys_iff.2 ?_))
    rw [h]
    rfl

/-- Without any one of them, there are no more places than nodes. -/
theorem card_le_of_ssubset (d : Disk) {chosen : Finset Location} (h : chosen ⊂ d.places) :
    chosen.card ≤ d.nodes.size := by
  -- The top is a place without a node, and one place at least is not chosen.
  have hkeys : d.nodes.keys.toFinset.card ≤ d.nodes.keys.length := List.toFinset_card_le _
  have hall : d.places.card ≤ d.nodes.keys.toFinset.card + 1 := Finset.card_insert_le _ _
  have hless := Finset.card_lt_card h
  have hsize : d.nodes.keys.length = d.nodes.size := List.length_map _
  omega

end Disk

/-! ## Room below a directory -/

namespace Walker

variable {options : WalkOptions} {d : Disk} {above : List Ancestor} {here child : Ancestor}

/-- The places that a walk is not inside of. -/
def unvisited (d : Disk) (above : List Ancestor) : Finset Location :=
  d.places.filter fun l => ∀ a ∈ above, a.place ≠ l

/-- The places with more names than a location. -/
def longer (d : Disk) (l : Location) : Finset Location :=
  d.places.filter fun k => l.length < k.length

/-- How much further down a walk can go that is inside of `above`, the first of which is at `l`. -/
def room (d : Disk) (above : List Ancestor) (l : Location) : Nat :=
  (unvisited d above).card * (d.nodes.size + 1) + (longer d l).card

/-- The top of a disk is nowhere below. -/
theorem card_longer_le (d : Disk) (l : Location) : (longer d l).card ≤ d.nodes.size := by
  refine d.card_le_of_ssubset (Finset.filter_ssubset.2 ⟨[], Finset.mem_insert_self _ _, ?_⟩)
  exact Nat.not_lt_zero l.length

theorem unvisited_cons_subset (d : Disk) (a : Ancestor) (above : List Ancestor) :
    unvisited d (a :: above) ⊆ unvisited d above := by
  intro l hl
  obtain ⟨hplace, hfree⟩ := Finset.mem_filter.1 hl
  exact Finset.mem_filter.2 ⟨hplace, fun b hb => hfree b (List.mem_cons_of_mem a hb)⟩

/-- A directory inside of another takes up room, because its location is longer. -/
theorem room_of_longer {l : Location} (hchild : child.place ∈ d.places)
    (hlength : l.length < child.place.length) :
    room d (child :: above) child.place < room d above l := by
  have hvisited := Finset.card_le_card (unvisited_cons_subset d child above)
  have hsubset : longer d child.place ⊆ longer d l := by
    intro k hk
    obtain ⟨hplace, hk⟩ := Finset.mem_filter.1 hk
    exact Finset.mem_filter.2 ⟨hplace, hlength.trans hk⟩
  have hlonger : (longer d child.place).card < (longer d l).card := by
    apply Finset.card_lt_card
    refine (Finset.ssubset_iff_of_subset hsubset).2 ⟨child.place, ?_, fun hmem => ?_⟩
    · exact Finset.mem_filter.2 ⟨hchild, hlength⟩
    · exact Nat.lt_irrefl _ (Finset.mem_filter.1 hmem).2
  have hrows := Nat.mul_le_mul_right (d.nodes.size + 1) hvisited
  unfold room
  omega

/-- A directory behind a link takes up room, because the walk has not been inside of it. -/
theorem room_of_link {l : Location} (hchild : child.place ∈ d.places)
    (hfree : ∀ a ∈ above, a.place ≠ child.place) :
    room d (child :: above) child.place < room d above l := by
  have hvisited : (unvisited d (child :: above)).card < (unvisited d above).card := by
    apply Finset.card_lt_card
    refine (Finset.ssubset_iff_of_subset (unvisited_cons_subset d child above)).2
      ⟨child.place, ?_, fun hmem => ?_⟩
    · exact Finset.mem_filter.2 ⟨hchild, hfree⟩
    · exact (Finset.mem_filter.1 hmem).2 child List.mem_cons_self rfl
  -- The longer locations may be all there are, which one visited place less makes up for.
  have hlonger := card_longer_le d child.place
  have hrows := Nat.mul_le_mul_right (d.nodes.size + 1) hvisited
  rw [Nat.succ_mul] at hrows
  unfold room
  omega

/-- The levels of a walk are more than the room at its start. -/
theorem room_lt_walkLevels (hhere : here.place ∈ d.places) :
    room d [here] here.place < walkLevels d := by
  have hvisited : (unvisited d [here]).card ≤ d.nodes.size := by
    refine d.card_le_of_ssubset (Finset.filter_ssubset.2 ⟨here.place, hhere, fun hfree => ?_⟩)
    exact hfree here (List.mem_singleton_self here) rfl
  have hlonger := card_longer_le d here.place
  have hrows := Nat.mul_le_mul_right (d.nodes.size + 1) hvisited
  have hsquare : (d.nodes.size + 1) * (d.nodes.size + 1)
      = d.nodes.size * (d.nodes.size + 1) + (d.nodes.size + 1) := Nat.succ_mul _ _
  unfold room walkLevels
  omega

/-! ## Steps of a walk -/

/-- Says of a directory in which a walk is that its path leads to where it is. -/
def Ancestor.Leads (here : Ancestor) (d : Disk) : Prop :=
  d.lookUp here.path true = .ok (here.place, .directory)

theorem answerDuring_eq_ok {α : Type} {full : Path} {r : Except IoCause α} {a : α} :
    answerDuring full r = .ok a ↔ r = .ok a :=
  mapError_eq_ok

/-- A step of a walk leads into a directory itself, or through a link to one in which the walk is not
already. -/
theorem found_directory {followLinks : Bool} {full : Path} {place : Location}
    (h : found d followLinks above full = .ok (place, .directory)) :
    d.lookUp full true = .ok (place, .directory) ∧
      (d.lookUp full false = .ok (place, .directory) ∨ ∀ a ∈ above, a.place ≠ place) := by
  unfold found at h
  obtain ⟨⟨l, node⟩, hanswer, hnext⟩ := monad_bind_eq_ok.1 h
  have hfalse : d.lookUp full false = .ok (l, node) := answerDuring_eq_ok.1 hanswer
  cases node with
  | file _ => cases hnext
  | directory =>
    cases hnext
    exact ⟨Disk.lookUp_last hfalse (by simp), Or.inl hfalse⟩
  | link target =>
    cases followLinks with
    | false => cases hnext
    | true =>
      obtain ⟨⟨l', node'⟩, hanswer', hlast⟩ := monad_bind_eq_ok.1 hnext
      have htrue : d.lookUp full true = .ok (l', node') := answerDuring_eq_ok.1 hanswer'
      dsimp only at hlast
      split at hlast
      · cases hlast
      · rename_i hfree
        cases hlast
        refine ⟨htrue, Or.inr fun a ha hplace => ?_⟩
        cases hfind : above.find? fun a => a.place == place with
        | some b => exact hfree b rfl hfind
        | none =>
          have hnone := List.find?_eq_none.1 hfind a ha
          exact hnone (beq_iff_eq.2 hplace)

/-- A step down takes up room, through a link or not. -/
theorem room_of_found {followLinks : Bool} (child : Ancestor) (hhere : here.Leads d) {name : String}
    (hname : IsName name) (hpath : child.path = here.path.join ⟨name⟩)
    (h : found d followLinks (here :: above) child.path = .ok (child.place, .directory)) :
    child.Leads d ∧
      room d (child :: here :: above) child.place < room d (here :: above) here.place := by
  obtain ⟨htrue, hcases⟩ := found_directory h
  have hplace : child.place ∈ d.places := Disk.mem_places (Disk.lookUp_eq_ok_iff.1 htrue).2
  refine ⟨htrue, ?_⟩
  rcases hcases with hfalse | hfree
  · -- A directory that has been listed stands under its name in the one that lists it.
    rw [hpath] at hfalse
    have hbelow : child.place = here.place ++ [name] :=
      Disk.locate_join hname (Disk.lookUp_eq_ok_iff.1 hhere).1 (Disk.lookUp_eq_ok_iff.1 hfalse).1
    refine room_of_longer hplace ?_
    rw [hbelow, List.length_append]
    exact Nat.lt_add_one _
  · exact room_of_link hplace hfree

/-! ## Walks -/

/-- In whichever order names are taken, they are the same names. -/
theorem mem_ordered {names : List String} {name : String} :
    name ∈ ordered options names ↔ name ∈ names := by
  unfold ordered
  split
  · exact List.mem_mergeSort
  · exact Iff.rfl

/-- A step of a walk is the same on two disks that have the same there, if the walk goes down the same
way behind it. -/
theorem visit_congr {d' : Disk} {depth : Nat} {full : Path} {below below' : Ancestor → List WalkItem}
    (hfound : found d options.followLinks above full = found d' options.followLinks above full)
    (hbelow : ∀ place, found d options.followLinks above full = .ok (place, .directory) →
      below ⟨full, place⟩ = below' ⟨full, place⟩) :
    visit options d depth above below full = visit options d' depth above below' full := by
  unfold visit
  rw [← hfound]
  cases h : found d options.followLinks above full with
  | error e => rfl
  | ok place =>
    obtain ⟨place, node⟩ := place
    cases node with
    | file _ | link _ => rfl
    | directory =>
      dsimp only
      rw [hbelow place h]

/-- **A walk never uses up its levels.** Any two numbers of levels that are more than the room below a
directory give the same walk. The induction is on the levels, one of which is taken where the room
becomes less. -/
theorem walkFrom_eq_of_room (hd : d.Named) (hhere : here.Leads d) (depth : Nat)
    {levels levels' : Nat} (henough : room d (here :: above) here.place < levels)
    (henough' : room d (here :: above) here.place < levels') :
    walkFrom options d levels depth above here = walkFrom options d levels' depth above here := by
  induction levels generalizing levels' depth above here with
  | zero => exact absurd henough (Nat.not_lt_zero _)
  | succ levels ih =>
    cases levels' with
    | zero => exact absurd henough' (Nat.not_lt_zero _)
    | succ levels' =>
      rw [walkFrom, walkFrom]
      cases hnames : d.names here.path with
      | error cause => rfl
      | ok names =>
        -- What the names are and where they lead does not depend on the levels.
        refine List.flatMap_congr fun name hname => visit_congr rfl fun place hfound => ?_
        have hchild : IsName name := hd.isName_of_names hnames name (mem_ordered.1 hname)
        obtain ⟨hleads, hless⟩ := room_of_found ⟨_, place⟩ hhere hchild rfl hfound
        refine ih hleads _ ?_ ?_
        · exact Nat.lt_of_lt_of_le hless (Nat.le_of_lt_succ henough)
        · exact Nat.lt_of_lt_of_le hless (Nat.le_of_lt_succ henough')

/-- From the start of a walk on, more levels than it is given make no difference. -/
theorem walkFrom_eq_of_walkLevels (hd : d.Named) (hhere : here.Leads d) (depth : Nat)
    {levels : Nat} (henough : walkLevels d ≤ levels) :
    walkFrom options d levels depth [] here = walkFrom options d (walkLevels d) depth [] here := by
  have hplace : here.place ∈ d.places := Disk.mem_places (Disk.lookUp_eq_ok_iff.1 hhere).2
  have hroom := room_lt_walkLevels hplace
  exact walkFrom_eq_of_room hd hhere depth (by omega) hroom

end Walker

end Stencil
