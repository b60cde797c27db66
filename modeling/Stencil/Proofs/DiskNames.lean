/-
The names on a disk.

What is put on a disk gets its name from a path, and so do the directories that are made on the way to
it, while what a look-up reaches has been put there before. So every name on a disk is one that a path
can lead to: this is the invariant of a change, and it holds after any changes of an empty disk.
-/
import Stencil.Proofs.DiskTrees

set_option autoImplicit false

namespace Stencil

open Stencil.Runs

/-- A name at the end of a path can be a name. -/
theorem Path.isName_of_fileName? {p : Path} {name : String} (h : p.fileName? = some name) :
    IsName name := by
  obtain ⟨part, hpart, hname⟩ := Option.bind_eq_some_iff.1 h
  cases part with
  | name s =>
    rw [← Option.some.inj hname]
    exact isName_of_mem_parts (List.mem_of_getLast? hpart)
  | root | current | parent => cases hname

/-- Where a way along parts has led so far. -/
def Disk.Reached.place : Disk.Reached → Location
  | .location l => l
  | .link within _ _ => within

namespace Disk

variable {d made : Disk} {p : Path} {l here : Location} {node : DiskNode} {followLast : Bool}

/-- Says that all names on a disk are proper ones. -/
def Named (d : Disk) : Prop := ∀ l ∈ d.nodes.keys, l.Proper

instance (d : Disk) : Decidable d.Named := inferInstanceAs (Decidable (∀ l ∈ d.nodes.keys, l.Proper))

/-- A disk with nothing on it has no names, whatever its listings will look like. -/
theorem named_of_nodes_empty (h : d.nodes = Table.empty) : d.Named := by
  unfold Named
  rw [h]
  exact fun _ hl => absurd hl List.not_mem_nil

namespace Named

variable (h : d.Named)

include h

theorem proper_of_node? (hnode : d.node? l = some node) : l.Proper := by
  unfold node? at hnode
  by_cases hl : l = []
  · rw [hl]
    exact Location.Proper.nil
  · rw [if_neg (by simpa using hl)] at hnode
    exact h l (Table.mem_keys_iff.2 (by rw [hnode]; rfl))

theorem set (hl : l.Proper) (node : DiskNode) : (d.set l node).Named := by
  intro l' hl'
  rw [Table.mem_keys_iff, Disk.set, Table.get?_insert] at hl'
  split at hl'
  · rename_i heq
    rw [heq]
    exact hl
  · exact h l' (Table.mem_keys_iff.2 hl')

/-! ## Look-ups -/

/-- Parts lead from a proper location to a proper one, or to a link that stands in one. -/
theorem advance (hhere : here.Proper) (ps : List PathPart) {reached : Reached}
    (hreached : d.advance followLast here ps = .ok reached) : reached.place.Proper := by
  induction ps generalizing here with
  | nil =>
    rw [← Except.ok.inj hreached]
    exact hhere
  | cons part rest ih =>
    rw [advance_cons] at hreached
    split at hreached
    · cases part with
      | root => exact ih Location.Proper.nil hreached
      | current => exact ih hhere hreached
      | parent => exact ih (hhere.of_sublist (List.dropLast_sublist here)) hreached
      | name s =>
        dsimp only at hreached
        split at hreached
        · cases hreached
        · cases hnext : d.node? (here ++ [s]) with
          | none =>
            rw [hnext] at hreached
            cases hreached
          | some next =>
            -- The part may be any text, but what stands under it got its name from a path.
            have hbelow : Location.Proper (here ++ [s]) := h.proper_of_node? hnext
            rw [hnext] at hreached
            cases next with
            | file _ | directory => exact ih hbelow hreached
            | link target =>
              dsimp only at hreached
              split at hreached
              · rw [← Except.ok.inj hreached]
                exact hbelow
              · rw [← Except.ok.inj hreached]
                exact hhere
    · cases hreached

theorem follow {links : Nat} (hhere : here.Proper) (ps : List PathPart)
    (hfollow : d.follow followLast links here ps = .ok l) : l.Proper := by
  induction links using Nat.strongRecOn generalizing here ps with
  | ind links ih =>
    rw [follow_eq] at hfollow
    cases hadvance : d.advance followLast here ps with
    | error cause =>
      rw [hadvance] at hfollow
      cases hfollow
    | ok reached =>
      have hproper := h.advance hhere ps hadvance
      rw [hadvance] at hfollow
      cases reached with
      | location l' =>
        rw [← Except.ok.inj hfollow]
        exact hproper
      | link within target rest =>
        cases links with
        | zero => cases hfollow
        | succ left => exact ih left (Nat.lt_succ_self left) hproper _ hfollow

/-- The names in a directory can be names. -/
theorem isName_of_names {names : List String} (hnames : d.names p = .ok names) :
    ∀ name ∈ names, IsName name := by
  unfold Disk.names at hnames
  obtain ⟨⟨l, node⟩, _, hlist⟩ := monad_bind_eq_ok.1 hnames
  cases node with
  | file _ | link _ => cases hlist
  | directory =>
    cases hlist
    intro name hname
    obtain ⟨k, hk, rfl⟩ := List.mem_map.1 ((d.arrange_perm l _).mem_iff.1 hname)
    obtain ⟨hkey, hparent⟩ := List.mem_filter.1 hk
    have hsplit := Location.eq_of_parent? (beq_iff_eq.1 hparent)
    exact h k hkey _ (by rw [hsplit, Location.fileName_append]; simp)

/-! ## Changes -/

/-- Directories are made under names of a path, and where they have led is a proper location. The
induction is on the parts. -/
theorem makeDirectories (hhere : here.Proper) {ps : List PathPart}
    (hps : ∀ s, .name s ∈ ps → IsName s)
    (hmade : d.makeDirectories here ps = .ok (made, l)) : made.Named ∧ l.Proper := by
  induction ps generalizing d here with
  | nil =>
    obtain ⟨rfl, rfl⟩ := Prod.mk.inj (Except.ok.inj hmade)
    exact ⟨h, hhere⟩
  | cons part rest ih =>
    have hrest : ∀ s, .name s ∈ rest → IsName s := fun s hs => hps s (List.mem_cons_of_mem part hs)
    rw [Disk.makeDirectories] at hmade
    split at hmade
    · rename_i next hnext
      exact ih h (h.follow hhere _ hnext) hrest hmade
    · split at hmade
      · rename_i s _ _
        split at hmade
        · -- Only a part that is missing is made, under its own name.
          have hbelow : Location.Proper (here ++ [s]) :=
            hhere.append (Location.proper_singleton (hps s List.mem_cons_self))
          exact ih (h.set hbelow .directory) hbelow hrest hmade
        · cases hmade
      · cases hmade

theorem makeRoom {dir : Location} {name : String} (hmade : d.makeRoom p = .ok (made, dir, name)) :
    made.Named ∧ Location.Proper (dir ++ [name]) := by
  unfold Disk.makeRoom at hmade
  cases hname : p.fileName? with
  | none =>
    rw [hname] at hmade
    cases hmade
  | some last =>
    rw [hname] at hmade
    obtain ⟨⟨made', l⟩, hdirs, hroom⟩ := monad_bind_eq_ok.1 hmade
    have hparts : ∀ s, .name s ∈ p.parts.dropLast → IsName s :=
      fun s hs => Path.isName_of_mem_parts (List.dropLast_subset _ hs)
    obtain ⟨hmade', hl⟩ := h.makeDirectories Location.Proper.nil hparts hdirs
    dsimp only at hroom
    split at hroom
    · cases hroom
      exact ⟨hmade', hl.append (Location.proper_singleton (Path.isName_of_fileName? hname))⟩
    · cases hroom

/-- A file is written under its own name or under the last name of a link's target. The induction is
on the links that may be passed. -/
theorem write {content : ByteArray} {links : Nat} {dir : Location} {name : String}
    (hplace : Location.Proper (dir ++ [name]))
    (hwrite : d.write content links dir name = .ok made) : made.Named := by
  induction links generalizing dir name with
  | zero =>
    rw [Disk.write] at hwrite
    split at hwrite
    · cases hwrite
    · cases hwrite
    · rw [← Except.ok.inj hwrite]
      exact h.set hplace _
  | succ links ih =>
    rw [Disk.write] at hwrite
    split at hwrite
    · cases hwrite
    · rename_i target _
      split at hwrite
      · cases hwrite
      · cases hwrite
      · -- The target is followed up to its last name, under which the file goes.
        rename_i more last hlinks hlast
        obtain ⟨next, hnext, hgo⟩ := monad_bind_eq_ok.1 hwrite
        obtain rfl := Nat.succ.inj hlinks
        have hname : target.fileName? = some last := by
          split at hlast
          · cases hlast
          · exact hlast
        have hdir : dir.Proper := hplace.of_sublist (List.sublist_append_left dir [name])
        have hproper : next.Proper := h.follow hdir _ hnext
        split at hgo
        · exact ih (hproper.append (Location.proper_singleton (Path.isName_of_fileName? hname))) hgo
        · cases hgo
    · rw [← Except.ok.inj hwrite]
      exact h.set hplace _

theorem putDirectory (hput : d.putDirectory p = .ok made) : made.Named := by
  obtain ⟨⟨made', l⟩, hdirs, hlast⟩ := monad_bind_eq_ok.1 hput
  dsimp only at hlast
  split at hlast
  · rw [← Except.ok.inj hlast]
    exact (h.makeDirectories Location.Proper.nil (fun _ hs => Path.isName_of_mem_parts hs) hdirs).1
  · cases hlast

theorem putFile {content : ByteArray} (hput : d.putFile p content = .ok made) : made.Named := by
  obtain ⟨⟨made', dir, name⟩, hroom, hwrite⟩ := monad_bind_eq_ok.1 hput
  obtain ⟨hmade, hplace⟩ := h.makeRoom hroom
  exact hmade.write hplace hwrite

theorem putLink {target : Path} (hput : d.putLink p target = .ok made) : made.Named := by
  obtain ⟨⟨made', dir, name⟩, hroom, hlink⟩ := monad_bind_eq_ok.1 hput
  obtain ⟨hmade, hplace⟩ := h.makeRoom hroom
  dsimp only at hlink
  split at hlink
  · cases hlink
  · rw [← Except.ok.inj hlink]
    exact hmade.set hplace _

theorem removeFile (hremove : d.removeFile p = .ok made) : made.Named := by
  obtain ⟨⟨l, node⟩, _, herase⟩ := monad_bind_eq_ok.1 hremove
  dsimp only at herase
  split at herase
  · cases herase
  · rw [← Except.ok.inj herase]
    intro l' hl'
    rw [Table.mem_keys_iff, Table.get?_erase] at hl'
    split at hl'
    · cases hl'
    · exact h l' (Table.mem_keys_iff.2 hl')

end Named

/-- A change of a disk. -/
inductive Change where
  | putFile (p : Path) (content : ByteArray)
  | putDirectory (p : Path)
  | putLink (p target : Path)
  | removeFile (p : Path)

/-- The disk after a change, if the system allows it. -/
def change (d : Disk) : Change → Except IoCause Disk
  | .putFile p content => d.putFile p content
  | .putDirectory p => d.putDirectory p
  | .putLink p target => d.putLink p target
  | .removeFile p => d.removeFile p

theorem Named.change (h : d.Named) {c : Change} (hchange : d.change c = .ok made) : made.Named := by
  cases c with
  | putFile p content => exact h.putFile hchange
  | putDirectory p => exact h.putDirectory hchange
  | putLink p target => exact h.putLink hchange
  | removeFile p => exact h.removeFile hchange

/-- All names are proper ones after any changes of a disk with nothing on it. -/
theorem named_of_changes {start : Disk} (hstart : start.nodes = Table.empty)
    {changes : List Change} (h : changes.foldlM change start = .ok d) : d.Named :=
  foldlM_invariant (fun _ d => d.Named) (fun _ _ _ _ hnamed hchange => hnamed.change hchange)
    (named_of_nodes_empty hstart) h

end Disk

end Stencil
