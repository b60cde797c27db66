/-
Following paths on a disk.

The paths at which a directory asks the disk are the path of its root and names behind it, with a
slash in between unless the root has one already. Their parts are the parts of the root and the
names, so a look-up goes to the root first and on from there, whatever links the root leads through;
and the root is a beginning of all these paths, so what a walk has put in front it can take away
again.
-/
import Mathlib.Data.List.Basic
import Mathlib.Data.List.Induction
import Stencil.Files.Directory
import Stencil.Proofs.Locations

set_option autoImplicit false

namespace Stencil

/-! ## Texts of paths -/

namespace Path

/-- The slash that a path needs before it goes on. -/
def slash (p : Path) : List Char := if p.text.toList.getLast? = some '/' then [] else ['/']

theorem toList_join {p q : Path} (hp : p.text ≠ "") (hq : q.isAbsolute = false) :
    (p.join q).text.toList = p.text.toList ++ p.slash ++ q.text.toList := by
  have hempty : p.text.isEmpty = false := by simpa using hp
  unfold join slash
  by_cases hlast : p.text.toList.getLast? = some '/'
  · simp [hq, hempty, hlast]
  · simp [hq, hempty, hlast]

theorem ext_toList {p q : Path} (h : p.text.toList = q.text.toList) : p = q := by
  cases p
  cases q
  rw [Path.mk.injEq]
  exact String.toList_inj.1 h

end Path

namespace Location

variable {l : Location}

/-- The text of a path to a location begins with no slash. -/
theorem Proper.isAbsolute_path (h : l.Proper) : l.path.isAbsolute = false := by
  have hhead : ∀ {first : String} {more : List Char}, IsName first →
      ((first.toList ++ more).head? == some '/') = false := by
    intro first more hfirst
    cases hchars : first.toList with
    | nil => exact absurd hchars hfirst.toList_ne_nil
    | cons c cs =>
      have hc : c ≠ '/' := by
        intro hc
        exact hfirst.noSlash (by rw [hchars, hc]; exact List.mem_cons_self)
      simpa using hc
  cases l with
  | nil => rfl
  | cons first rest =>
    have hfirst := h first List.mem_cons_self
    unfold Path.isAbsolute path
    by_cases hrest : rest = []
    · rw [hrest, String.intercalate_singleton, ← List.append_nil first.toList]
      exact hhead hfirst
    · rw [String.intercalate_cons_of_ne_nil hrest, String.toList_append, String.toList_append,
        List.append_assoc]
      exact hhead hfirst

/-- The text of a path to a location ends with no slash. -/
theorem Proper.getLast?_path (h : l.Proper) : l.path.text.toList.getLast? ≠ some '/' := by
  cases l using List.reverseRecOn with
  | nil => simp [path]
  | append_singleton front name =>
    have hname := h name (by simp)
    intro hlast
    rw [path, toList_intercalate_concat, List.getLast?_append] at hlast
    cases hchars : name.toList.getLast? with
    | none =>
      rw [List.getLast?_eq_none_iff] at hchars
      exact hname.toList_ne_nil hchars
    | some c =>
      rw [hchars, Option.some_or] at hlast
      rw [Option.some.inj hlast] at hchars
      exact hname.noSlash (List.mem_of_getLast? hchars)

/-- With a slash behind it, the text of a path to a location has one behind every name. -/
theorem toList_path_slash (hne : l ≠ []) :
    l.path.text.toList ++ ['/'] = l.flatMap fun n => n.toList ++ ['/'] := by
  rw [← List.dropLast_concat_getLast hne, Location.path, toList_intercalate_concat]
  simp

theorem path_singleton (name : String) : path [name] = ⟨name⟩ := by
  rw [path, String.intercalate_singleton]

theorem proper_singleton {name : String} (h : IsName name) : Proper [name] := by
  intro other hother
  rw [List.mem_singleton.1 hother]
  exact h

/-- Going on by a name from the path of a location, without any root in front. -/
theorem Proper.join_path {name : String} (h : l.Proper) (hname : IsName name) :
    l.path.join ⟨name⟩ = Location.path (l ++ [name]) := by
  have habsolute : Path.isAbsolute ⟨name⟩ = false := by
    rw [← path_singleton]
    exact (proper_singleton hname).isAbsolute_path
  by_cases hnil : l = []
  · have hempty : (Location.path []).text.isEmpty = true := rfl
    rw [hnil, List.nil_append, path_singleton, Path.join, habsolute, hempty]
    exact Path.ext_toList (by simp [path])
  · have htext : l.path.text ≠ "" := by
      intro hempty
      exact h.toList_path_ne_nil hnil (by rw [hempty]; rfl)
    apply Path.ext_toList
    rw [Path.toList_join htext habsolute, Path.slash, if_neg h.getLast?_path,
      toList_path_slash hnil, path, toList_intercalate_concat]

end Location

namespace Directory

variable {dir : Directory} {l : Location}

/-- What stands in front of the names in all paths below a root. -/
def base (dir : Directory) : List Char := dir.root.text.toList ++ dir.root.slash

theorem base_eq (dir : Directory) :
    ∃ front, dir.base = front ++ ['/'] ∧
      (dir.root.text.toList = front ++ ['/'] ∨ dir.root.text.toList = front) := by
  unfold base Path.slash
  by_cases hlast : dir.root.text.toList.getLast? = some '/'
  · obtain ⟨front, hfront⟩ := List.getLast?_eq_some_iff.1 hlast
    rw [if_pos hlast, List.append_nil]
    exact ⟨front, hfront, Or.inl hfront⟩
  · rw [if_neg hlast]
    exact ⟨_, rfl, Or.inr rfl⟩

theorem toList_fullPath (hroot : dir.root.text ≠ "") (hl : l.Proper) :
    (dir.fullPath l).text.toList = dir.base ++ l.path.text.toList :=
  Path.toList_join hroot hl.isAbsolute_path

theorem fullPath_ne_empty (hroot : dir.root.text ≠ "") (hl : l.Proper) :
    (dir.fullPath l).text ≠ "" := by
  intro hempty
  have hchars := toList_fullPath hroot hl
  rw [hempty] at hchars
  exact hroot (String.toList_inj.1 (List.append_eq_nil_iff.1 (List.append_eq_nil_iff.1 hchars.symm).1).1)

/-- Going on by a name from the path of a location leads to the path of the location below. -/
theorem join_fullPath (hroot : dir.root.text ≠ "") {name : String} (hl : l.Proper)
    (hname : IsName name) : (dir.fullPath l).join ⟨name⟩ = dir.fullPath (l ++ [name]) := by
  have hone : Location.Proper [name] := Location.proper_singleton hname
  have hpath : Location.path [name] = ⟨name⟩ := Location.path_singleton name
  have habsolute : Path.isAbsolute ⟨name⟩ = false := by
    rw [← hpath]
    exact hone.isAbsolute_path
  obtain ⟨front, hbase, _⟩ := dir.base_eq
  apply Path.ext_toList
  rw [Path.toList_join (fullPath_ne_empty hroot hl) habsolute, toList_fullPath hroot hl,
    toList_fullPath hroot (hl.append hone), Path.slash, toList_fullPath hroot hl]
  by_cases hnil : l = []
  · -- Behind the root the slash is part of the base.
    have hlast : (dir.base ++ (Location.path []).text.toList).getLast? = some '/' := by
      rw [hbase]
      simp [Location.path]
    rw [hnil, if_pos hlast, List.nil_append, hpath]
    simp [Location.path]
  · have hlast : (dir.base ++ l.path.text.toList).getLast? ≠ some '/' := by
      rw [List.getLast?_append_of_ne_nil _ (hl.toList_path_ne_nil hnil)]
      exact hl.getLast?_path
    rw [if_neg hlast, List.append_assoc dir.base, Location.toList_path_slash hnil,
      List.append_assoc]
    show _ = dir.base ++ (String.intercalate "/" (l ++ [name])).toList
    rw [Location.toList_intercalate_concat]

/-! ## Parts of paths -/

/-- In front of further pieces, nothing at the very front stands for the root. -/
theorem partsOf_append {first : List Char} {others more : List (List Char)} (hmore : more ≠ []) :
    Path.partsOf (first :: others ++ more)
      = (PathPart.ofFirstPiece? first true).toList ++ others.filterMap PathPart.ofPiece?
        ++ more.filterMap PathPart.ofPiece? := by
  have hall : (!(others ++ more).isEmpty) = true := by simp [hmore]
  rw [List.cons_append, Path.partsOf, hall, List.filterMap_append, List.append_assoc]

/-- The pieces of a path below the root are those in front of the last slash and those of the
location. The root has the same pieces, and perhaps an empty one behind its own last slash. -/
theorem pieces_fullPath (hroot : dir.root.text ≠ "") (hl : l.Proper) :
    ∃ front : List Char, (dir.fullPath l).pieces = front.splitOn '/' ++ l.path.pieces ∧
      (dir.root.pieces = front.splitOn '/' ++ [[]] ∨
        front ≠ [] ∧ dir.root.pieces = front.splitOn '/') := by
  obtain ⟨front, hbase, htext⟩ := dir.base_eq
  have hsplit : ∀ s : List Char, (front ++ '/' :: s).splitOn '/'
      = front.splitOn '/' ++ s.splitOn '/' := by
    intro s
    rw [List.splitOn_eq_splitOnP, List.splitOn_eq_splitOnP, List.splitOn_eq_splitOnP]
    exact List.splitOnP_append_cons front s (by simp)
  refine ⟨front, ?_, ?_⟩
  · unfold Path.pieces
    rw [toList_fullPath hroot hl, hbase, List.append_assoc, Text.split_singleton,
      Text.split_singleton, List.singleton_append, hsplit]
  · unfold Path.pieces
    rw [Text.split_singleton]
    rcases htext with hslash | hplain
    · rw [hslash, hsplit, List.splitOn_nil]
      exact Or.inl rfl
    · rw [hplain]
      refine Or.inr ⟨?_, rfl⟩
      intro hnil
      exact hroot (String.toList_inj.1 (by rw [hplain, hnil]; rfl))

/-- The parts of a path below the root are the parts of the root and the names. -/
theorem parts_fullPath (hroot : dir.root.text ≠ "") (hl : l.Proper) :
    (dir.fullPath l).parts = dir.root.parts ++ l.map .name := by
  have hnames : l.path.pieces.filterMap PathPart.ofPiece? = l.map .name := by
    by_cases hnil : l = []
    · rw [hnil, Location.pieces_path_nil]
      rfl
    · rw [hl.pieces_path hnil, hl.filterMap_ofPiece?]
  have hpieces : l.path.pieces ≠ [] := by
    unfold Path.pieces
    rw [Text.split_singleton]
    exact List.splitOn_ne_nil _ _
  obtain ⟨front, hfull, hcases⟩ := pieces_fullPath hroot hl
  obtain ⟨first, others, hfront⟩ := List.exists_cons_of_ne_nil (List.splitOn_ne_nil '/' front)
  rw [hfront] at hfull hcases
  rw [Path.parts, hfull, partsOf_append hpieces, hnames, Path.parts]
  congr 1
  rcases hcases with hslash | ⟨hne, hplain⟩
  · rw [hslash, partsOf_append (by simp)]
    simp [PathPart.ofPiece?]
  · rw [hplain, Path.partsOf]
    -- A root that is not empty has something in front of its first slash, or a slash.
    by_cases hothers : others = []
    · have hfirst : first ≠ [] := by
        intro hnil
        have hall : ['/'].intercalate (front.splitOn '/') = front := List.intercalate_splitOn '/'
        rw [hfront, hothers, hnil] at hall
        exact hne hall.symm
      unfold PathPart.ofFirstPiece?
      rw [if_neg hfirst, if_neg hfirst]
    · have hmore : (!others.isEmpty) = true := by simp [hothers]
      rw [hmore]

/-- The last name of a path below the root is taken for whatever stands there, while the path of the
root itself can only mean a directory. -/
theorem steps_fullPath (hroot : dir.root.text ≠ "") (hl : l.Proper) :
    Disk.steps (dir.fullPath l)
      = dir.root.parts ++ if l = [] then [.current] else l.map .name := by
  obtain ⟨front, hfull, _⟩ := pieces_fullPath hroot hl
  unfold Disk.steps
  rw [parts_fullPath hroot hl]
  unfold Disk.meansDirectory
  rw [hfull]
  by_cases hnil : l = []
  · rw [hnil, Location.pieces_path_nil]
    simp [Path.isIdle]
  · rw [hl.pieces_path hnil]
    obtain ⟨names, name, rfl⟩ := (List.eq_nil_or_concat l).resolve_left hnil
    have hname : IsName name := hl name (by simp)
    have hidle : Path.isIdle name.toList = false := by
      simp [Path.isIdle, hname.toList_ne_nil, hname.toList_ne_current]
    simp [hidle]

/-- A root without any text puts nothing in front. -/
theorem fullPath_of_empty (hroot : dir.root.text = "") (hl : l.Proper) : dir.fullPath l = l.path := by
  have hempty : dir.root.text.isEmpty = true := by simp [hroot]
  rw [fullPath, Path.join, hl.isAbsolute_path, hempty]
  exact Path.ext_toList (by simp [hroot])

/-- Whatever the root, the parts of a path below it are its own and the names. -/
theorem parts_fullPath_eq (dir : Directory) (hl : l.Proper) :
    (dir.fullPath l).parts = dir.root.parts ++ l.map .name := by
  by_cases hroot : dir.root.text = ""
  · have hnothing : dir.root.parts = [] := by
      have hpath : dir.root = Location.path [] := Path.ext_toList (by simp [hroot, Location.path])
      rw [hpath, Location.Proper.nil.parts_path, List.map_nil]
    rw [fullPath_of_empty hroot hl, hl.parts_path, hnothing, List.nil_append]
  · exact parts_fullPath hroot hl

/-- Whatever the root, going on by a name leads to the location below. -/
theorem join_fullPath_eq (dir : Directory) {name : String} (hl : l.Proper) (hname : IsName name) :
    (dir.fullPath l).join ⟨name⟩ = dir.fullPath (l ++ [name]) := by
  by_cases hroot : dir.root.text = ""
  · have hlonger : Location.Proper (l ++ [name]) := hl.append (Location.proper_singleton hname)
    rw [fullPath_of_empty hroot hl, fullPath_of_empty hroot hlonger, hl.join_path hname]
  · exact join_fullPath hroot hl hname

/-- What is left of a path below the root is its location. -/
theorem relative_fullPath (hroot : dir.root.text ≠ "") (hl : l.Proper) :
    dir.relative (dir.fullPath l) = .ok l := by
  have hbelow : dir.root.parts.isPrefixOf? (dir.fullPath l).parts = some (l.map .name) := by
    rw [parts_fullPath hroot hl]
    exact List.isPrefixOf?_eq_some_iff_append_eq.2 rfl
  have hnames : (l.map PathPart.name).filterMap PathPart.name? = l := by
    rw [List.filterMap_map]
    exact List.filterMap_some
  unfold relative
  rw [hbelow]
  show Except.ok _ = _
  rw [hnames]

end Directory

/-! ## Look-ups that go on -/

namespace Disk

variable {d : Disk} {followLast : Bool}

/-- A name behind a path is one step more. -/
theorem steps_join {p : Path} (hp : p.text ≠ "") {name : String} (hname : IsName name) :
    steps (p.join ⟨name⟩) = p.parts ++ [.name name] := by
  have hsteps : steps (Directory.fullPath ⟨p⟩ [name])
      = p.parts ++ if [name] = [] then [.current] else [.name name] :=
    Directory.steps_fullPath hp (Location.proper_singleton hname)
  rw [Directory.fullPath, Location.path_singleton, if_neg (List.cons_ne_nil name [])] at hsteps
  exact hsteps

theorem advance_cons (here : Location) (part : PathPart) (rest : List PathPart) :
    d.advance followLast here (part :: rest) = match d.node? here with
      | some .directory =>
        match part with
        | .root => d.advance followLast [] rest
        | .current => d.advance followLast here rest
        | .parent => d.advance followLast here.dropLast rest
        | .name s =>
          if nameLimit < s.utf8ByteSize then .error .nameTooLong
          else
            match d.node? (here ++ [s]) with
            | none => .error .missing
            | some (.link target) =>
              if rest.isEmpty && !followLast then .ok (.location (here ++ [s]))
              else .ok (.link here target rest)
            | some _ => d.advance followLast (here ++ [s]) rest
      | _ => .error .notADirectory :=
  advance.eq_def ..

theorem follow_eq (links : Nat) (here : Location) (ps : List PathPart) :
    d.follow followLast links here ps = match d.advance followLast here ps with
      | .error cause => .error cause
      | .ok (.location l) => .ok l
      | .ok (.link within target rest) =>
        match links with
        | 0 => .error .tooManyLinks
        | more + 1 => d.follow followLast more within (steps target ++ rest) :=
  follow.eq_def ..

/-- With more parts behind them, parts lead as far as before, and what is behind a link waits for the
rest. A link at the end is passed in any case, because it is no longer at the end. -/
theorem advance_append (here : Location) (ps : List PathPart) {more : List PathPart}
    (hmore : more ≠ []) :
    d.advance followLast here (ps ++ more) = match d.advance true here ps with
      | .error cause => .error cause
      | .ok (.location l) => d.advance followLast l more
      | .ok (.link within target rest) => .ok (.link within target (rest ++ more)) := by
  induction ps generalizing here with
  | nil => rfl
  | cons part rest ih =>
    have hlast : (rest ++ more).isEmpty = false := by simp [hmore]
    rw [List.cons_append, advance_cons, advance_cons]
    cases hnode : d.node? here with
    | none => rfl
    | some node =>
      cases node with
      | file _ => rfl
      | link _ => rfl
      | directory =>
        cases part with
        | root | current | parent => exact ih _
        | name s =>
          dsimp only
          by_cases hlong : nameLimit < s.utf8ByteSize
          · rw [if_pos hlong, if_pos hlong]
          · rw [if_neg hlong, if_neg hlong]
            cases hnext : d.node? (here ++ [s]) with
            | none => rfl
            | some node =>
              cases node with
              | file _ | directory => exact ih _
              | link target => simp [hlast]

/-- Following parts with more behind them is following the parts, links and all, and going on from
where they lead. The induction is on the links that may be passed. -/
theorem follow_append (followLast : Bool) (links : Nat) (here : Location) (ps : List PathPart)
    {more : List PathPart} (hmore : more ≠ []) :
    (∃ l left, d.follow true links here ps = .ok l ∧
        d.follow followLast links here (ps ++ more) = d.follow followLast left l more) ∨
      ∃ cause, d.follow true links here ps = .error cause ∧
        d.follow followLast links here (ps ++ more) = .error cause := by
  induction links using Nat.strongRecOn generalizing here ps with
  | ind links ih =>
    rw [follow_eq links here ps, follow_eq links here (ps ++ more), advance_append here ps hmore]
    cases d.advance true here ps with
    | error cause => exact Or.inr ⟨cause, rfl, rfl⟩
    | ok reached =>
      cases reached with
      | location l => exact Or.inl ⟨l, links, rfl, (follow_eq links l more).symm⟩
      | link within target rest =>
        cases links with
        | zero => exact Or.inr ⟨.tooManyLinks, rfl, rfl⟩
        | succ left =>
          have hlater := ih left (Nat.lt_succ_self left) within (steps target ++ rest)
          rw [List.append_assoc] at hlater
          exact hlater

/-- The step by which a path can only mean a directory stays where it is. -/
theorem follow_parts_of_steps {p : Path} {links : Nat} {here l : Location}
    (h : d.follow true links here (steps p) = .ok l) : d.follow true links here p.parts = .ok l := by
  unfold steps at h
  split at h
  · have happend := follow_append true links here p.parts (List.cons_ne_nil PathPart.current [])
      (d := d)
    rcases happend with ⟨l', left, hl', hgo⟩ | ⟨cause, _, hfail⟩
    · rw [hgo, follow_eq, advance_cons] at h
      rw [hl']
      cases hnode : d.node? l' with
      | none => simp [hnode] at h
      | some node =>
        cases node with
        | file _ => simp [hnode] at h
        | link _ => simp [hnode] at h
        | directory => simpa [hnode, advance] using h
    · rw [hfail] at h
      exact absurd h (by simp)
  · exact h

theorem locate_eq_ok {p : Path} {l : Location} (h : d.locate p followLast = .ok l) :
    p.text ≠ "" ∧ '\x00' ∉ p.text.toList ∧ d.follow followLast linkLimit [] (steps p) = .ok l := by
  unfold locate at h
  split at h
  · cases h
  · rename_i hempty
    split at h
    · cases h
    · rename_i hnul
      exact ⟨by simpa using hempty, by simpa using hnul, h⟩

/-- Parts behind those of a path are followed from where the path leads. -/
theorem follow_behind {p : Path} {l : Location} (followLast : Bool) (h : d.locate p true = .ok l)
    {more : List PathPart} (hmore : more ≠ []) :
    ∃ left, d.follow followLast linkLimit [] (p.parts ++ more)
      = d.follow followLast left l more := by
  have hparts := follow_parts_of_steps (locate_eq_ok h).2.2
  have happend := follow_append followLast linkLimit [] p.parts hmore (d := d)
  rcases happend with ⟨l', left, hl', hgo⟩ | ⟨cause, hfail, _⟩
  · rw [hparts] at hl'
    rw [← Except.ok.inj hl'] at hgo
    exact ⟨left, hgo⟩
  · rw [hparts] at hfail
    exact absurd hfail (by simp)

end Disk

end Stencil
