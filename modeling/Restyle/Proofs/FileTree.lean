import Mathlib.Tactic.SplitIfs
import Restyle.FileTree
import Restyle.Proofs.Text.Segments
import Restyle.Proofs.Text.Utf8

/-!
# Looking Paths Up

Where looking a path up can end, and what it depends on.

A path is followed through links, fillers and steps upwards, but the place that it ends at is one that
names alone lead to from the root. So the absolute path of that place leads there again, and it does so
without a link on the way. This needs the working directory to be such a place itself, since a relative
path starts there.

Nothing on the way is a file, or the way would end there. So a lookup depends on where files are and not
on what they hold, and two trees that differ in the contents of files alone agree on every lookup. What
is read in the one and in the other can only differ if it is read where they differ.

## Main definitions

* `IsName`: A text that names a place in a directory.
* `Reached`: A location that names lead to from the root.
* `FirstStep`: What a walk does with its first segment.
* `Node.shape`: A node without its contents.
* `SameShape`: Two trees differ in nothing but the contents of files.

## Theorems

* `reached_of_follow`: A path leads to a location that is reached.
* `follow_path`: The absolute path of such a location leads there.
* `SameShape.follow_eq`: Where a path leads does not depend on the contents of files.
-/

namespace Restyle.FileTree

/-- A text that names a place in a directory. -/
structure IsName (name : Text) : Prop where
  not_filler : Path.isFiller name = false
  ne_up : name ≠ ['.', '.']
  short : name.byteLength ≤ nameLimit
  no_slash : '/' ∉ name

/-- A location that names lead to from the root. What they pass are directories, and what they lead to
    is anything but a link, if it is there at all. -/
inductive Reached (tree : FileTree) : Location → Prop where
  | root : Reached tree []
  | name {dir : Location} {name : Text} (above : Reached tree dir)
      (directory : tree.node? dir = some .directory) (named : IsName name)
      (direct : ∀ target, tree.node? (dir ++ [name]) ≠ some (.link target)) :
      Reached tree (dir ++ [name])

/-! ### Where a path leads -/

/-- What is done in two steps succeeds if the first does and then the second. -/
theorem exists_of_bind_eq_ok {ε α β : Type} {x : Except ε α} {f : α → Except ε β} {b : β}
    (h : x >>= f = .ok b) : ∃ a, x = .ok a ∧ f a = .ok b := by
  cases x with
  | error e => exact nomatch h
  | ok a => exact ⟨a, rfl, h⟩

section Walking

variable {tree : FileTree} {followLink : Location → List Text → Except FileError Location}

theorem Reached.dropLast {location : Location} (h : Reached tree location) :
    Reached tree location.dropLast := by
  cases h with
  | root => exact .root
  | name above => rwa [List.dropLast_concat]

/-- What is left behind is a directory. -/
theorem directory_of_walkWith {location l : Location} {segment : Text} {rest : List Text}
    (h : tree.walkWith followLink location (segment :: rest) = .ok l) :
    tree.node? location = some .directory := by
  rw [walkWith] at h
  split at h
  · exact nomatch h
  · assumption
  · exact nomatch h

theorem reached_origin {location : Location} (h : Reached tree location) (p : Path) :
    Reached tree (p.origin location) := by
  unfold Path.origin
  split_ifs with habs
  · exact .root
  · exact h

theorem no_slash_stops (p : Path) : ∀ s ∈ p.stops, '/' ∉ s :=
  fun _ h => Text.not_mem_of_mem_segments h

/-- What a walk does with its first segment, if it gets to a place in the end. -/
inductive FirstStep (tree : FileTree)
    (followLink : Location → List Text → Except FileError Location) (location : Location)
    (segment : Text) (rest : List Text) (l : Location) : Prop where
  | filler (filler : Path.isFiller segment = true)
      (onward : tree.walkWith followLink location rest = .ok l)
  | up (named : Path.isFiller segment = false) (up : segment = ['.', '.'])
      (onward : tree.walkWith followLink location.dropLast rest = .ok l)
  /-- The name is that of a link, and what is left goes behind its target. -/
  | link (named : Path.isFiller segment = false) (ne_up : segment ≠ ['.', '.'])
      (short : segment.byteLength ≤ nameLimit) {target : Path}
      (link : tree.node? (location ++ [segment]) = some (.link target))
      (onward : followLink (target.origin location) (target.stops ++ rest) = .ok l)
  | name (named : Path.isFiller segment = false) (ne_up : segment ≠ ['.', '.'])
      (short : segment.byteLength ≤ nameLimit)
      (direct : ∀ target, tree.node? (location ++ [segment]) ≠ some (.link target))
      (onward : tree.walkWith followLink (location ++ [segment]) rest = .ok l)

/-- A walk gets to a place from a directory only, and by way of its first segment. -/
theorem walkWith_cons_eq_ok_iff {location l : Location} {segment : Text} {rest : List Text} :
    tree.walkWith followLink location (segment :: rest) = .ok l ↔
      tree.node? location = some .directory ∧
        FirstStep tree followLink location segment rest l := by
  constructor
  · intro h
    have hdirectory := directory_of_walkWith h
    refine ⟨hdirectory, ?_⟩
    simp only [walkWith, hdirectory] at h
    split_ifs at h with hfiller hup hlong
    · exact .filler hfiller h
    · exact .up (Bool.eq_false_iff.mpr hfiller) hup h
    · split at h
      · next target htarget =>
        exact .link (Bool.eq_false_iff.mpr hfiller) hup (Nat.le_of_not_lt hlong) htarget h
      · next hdirect =>
        exact .name (Bool.eq_false_iff.mpr hfiller) hup (Nat.le_of_not_lt hlong) hdirect h
  · rintro ⟨hdirectory, hstep⟩
    simp only [walkWith, hdirectory]
    cases hstep with
    | filler hfiller honward => rw [if_pos hfiller, honward]
    | up hnamed hup honward => rw [if_neg (Bool.eq_false_iff.mp hnamed), if_pos hup, honward]
    | link hnamed hup hshort htarget honward =>
        rw [if_neg (Bool.eq_false_iff.mp hnamed), if_neg hup, if_neg (Nat.not_lt.mpr hshort)]
        simp only [htarget, honward]
    | name hnamed hup hshort hdirect honward =>
        rw [if_neg (Bool.eq_false_iff.mp hnamed), if_neg hup, if_neg (Nat.not_lt.mpr hshort)]
        split
        · next target htarget => exact absurd htarget (hdirect target)
        · exact honward

/-- Walking from a reached location ends at one, if following a link does. -/
theorem reached_of_walkWith
    (hlink : ∀ location segments l, Reached tree location → (∀ s ∈ segments, '/' ∉ s) →
      followLink location segments = .ok l → Reached tree l)
    {segments : List Text} (hsegments : ∀ s ∈ segments, '/' ∉ s) {location l : Location}
    (hlocation : Reached tree location)
    (h : tree.walkWith followLink location segments = .ok l) : Reached tree l := by
  induction segments generalizing location with
  | nil =>
      rw [walkWith, Except.ok.injEq] at h
      rwa [← h]
  | cons segment rest ih =>
      have hrest : ∀ s ∈ rest, '/' ∉ s := fun s hs => hsegments s (List.mem_cons_of_mem segment hs)
      obtain ⟨hdirectory, hstep⟩ := walkWith_cons_eq_ok_iff.mp h
      cases hstep with
      | filler _ honward => exact ih hrest hlocation honward
      | up _ _ honward => exact ih hrest hlocation.dropLast honward
      | @link _ _ _ target _ honward =>
          refine hlink _ _ l (reached_origin hlocation target) (fun s hs => ?_) honward
          exact (List.mem_append.mp hs).elim (no_slash_stops target s) (hrest s)
      | name hnamed hup hshort hdirect honward =>
          have hname : IsName segment := ⟨hnamed, hup, hshort, hsegments segment List.mem_cons_self⟩
          exact ih hrest (.name hlocation hdirectory hname hdirect) honward

theorem reached_of_walk (links : Nat) {segments : List Text} (hsegments : ∀ s ∈ segments, '/' ∉ s)
    {location l : Location} (hlocation : Reached tree location)
    (h : tree.walk links location segments = .ok l) : Reached tree l := by
  induction links generalizing segments location l with
  | zero => exact reached_of_walkWith (fun _ _ _ _ _ h => by cases h) hsegments hlocation h
  | succ links ih =>
      exact reached_of_walkWith (fun _ _ _ hlocation hsegments h => ih hsegments hlocation h)
        hsegments hlocation h

/-- A path leads to a location that is reached. -/
theorem reached_of_follow (hhere : Reached tree tree.workingDirectory) {p : Path} {l : Location}
    (h : tree.follow p = .ok l) : Reached tree l :=
  reached_of_walk linkLimit (no_slash_stops p) (reached_origin hhere p) h

/-- The names of a reached location lead there from the root. -/
theorem walkWith_append_of_reached
    (followLink : Location → List Text → Except FileError Location) {l : Location}
    (h : Reached tree l) (rest : List Text) :
    tree.walkWith followLink [] (l ++ rest) = tree.walkWith followLink l rest := by
  induction h generalizing rest with
  | root => rfl
  | @name dir name above directory hname direct ih =>
      rw [List.append_assoc, ih, List.singleton_append, walkWith, directory]
      -- There is no link to turn off at, so the walk goes on below the directory.
      simp only []
      rw [if_neg (Bool.eq_false_iff.mp hname.not_filler), if_neg hname.ne_up,
        if_neg (Nat.not_lt.mpr hname.short)]

theorem no_slash_of_reached {l : Location} (h : Reached tree l) : ∀ name ∈ l, '/' ∉ name := by
  induction h with
  | root => exact fun _ h => nomatch h
  | name above directory hname direct ih =>
      intro name hmem
      rcases List.mem_append.mp hmem with hmem | hmem
      · exact ih name hmem
      · rw [List.mem_singleton.mp hmem]
        exact hname.no_slash

theorem stops_path {l : Location} (hne : l ≠ []) (hslash : ∀ name ∈ l, '/' ∉ name) :
    l.path.stops = l :=
  Text.segments_intercalate hne hslash

/-- The absolute path of a reached location leads there. -/
theorem follow_path {l : Location} (hne : l ≠ []) (h : Reached tree l) :
    tree.follow l.path = .ok l := by
  have horigin : l.path.origin tree.workingDirectory = [] := rfl
  rw [follow, stops_path hne (no_slash_of_reached h), horigin]
  -- No link is met on the way, so it does not matter how many may be followed.
  have hwalk := fun followLink => walkWith_append_of_reached followLink h []
  simp only [List.append_nil, walkWith] at hwalk
  exact hwalk _

/-- An absolute path ends in its last name, and so in no slash. -/
theorem getLast?_path_concat (dir : Location) {name : Text} (hnil : name ≠ []) (hslash : '/' ∉ name) :
    (Location.path (dir ++ [name])).text.getLast? ≠ some '/' := by
  have hfront : ∃ front, (Location.path (dir ++ [name])).text = front ++ name := by
    by_cases hdir : dir = []
    · exact ⟨['/'], by rw [hdir, List.nil_append, Location.path, List.intercalate_singleton]; rfl⟩
    · refine ⟨'/' :: ['/'].intercalate dir ++ ['/'], ?_⟩
      rw [Location.path, Text.intercalate_append_of_ne_nil hdir (List.cons_ne_nil name []),
        List.intercalate_singleton]
      simp
  obtain ⟨front, hfront⟩ := hfront
  have hlast : (front ++ name).getLast? = name.getLast? := by
    rw [List.getLast?_append, List.getLast?_eq_some_getLast hnil, Option.some_or]
  rw [hfront, hlast]
  exact fun h => hslash (List.mem_of_getLast? h)

theorem getLast?_path_ne_slash {l : Location} (hne : l ≠ []) (h : Reached tree l) :
    l.path.text.getLast? ≠ some '/' := by
  cases h with
  | root => exact absurd rfl hne
  | name above directory hname direct =>
      refine getLast?_path_concat _ ?_ hname.no_slash
      rintro rfl
      exact absurd hname.not_filler (by decide)

/-- The absolute path of a reached location is looked up as far as its length allows. -/
theorem locate_path {l : Location} (hne : l ≠ []) (h : Reached tree l) :
    tree.locate l.path = (requireShort l.path).map fun _ => l := by
  rw [locate, follow_path hne h]
  cases requireShort l.path with
  | error cause => rfl
  | ok done => rfl

/-- What is read at the absolute path of a reached location is what the file there holds. -/
theorem read_path_eq_ok_iff {l : Location} (hne : l ≠ []) (h : Reached tree l) {bytes : List UInt8} :
    tree.read l.path = .ok bytes ↔
      requireShort l.path = .ok () ∧ tree.node? l = some (.file bytes) := by
  rw [read, find, locate_path hne h]
  cases requireShort l.path with
  | error cause => simp [Except.map, bind, Except.bind]
  | ok done =>
      cases hnode : tree.node? l with
      | none => simp [Except.map, occupied, hnode, bind, Except.bind]
      | some node =>
          cases node <;> simp [Except.map, occupied, hnode, bind, Except.bind, pure, Except.pure,
            throw, throwThe, MonadExceptOf.throw]

/-- A file is read as text if its bytes are those of a text. -/
theorem readText_path_eq_ok_iff {l : Location} (hne : l ≠ []) (h : Reached tree l) {t : Text} :
    tree.readText l.path = .ok t ↔
      requireShort l.path = .ok () ∧ tree.node? l = some (.file t.toUtf8) := by
  rw [← read_path_eq_ok_iff hne h, readText]
  cases tree.read l.path with
  | error cause => simp [bind, Except.bind]
  | ok bytes =>
      rw [Except.ok.injEq, ← Utf8.decode?_eq_some_iff]
      cases hdecode : Utf8.decode? bytes <;>
        simp [hdecode, bind, Except.bind, pure, Except.pure, throw, throwThe, MonadExceptOf.throw]

/-- The slash is a step from the root to itself, which takes a directory. -/
theorem locate_root {l : Location} (h : tree.locate (Location.path []) = .ok l) :
    l = [] ∧ tree.node? [] = some .directory := by
  have hlocate : tree.locate (Location.path []) =
      tree.walkWith (tree.walk (linkLimit - 1)) [] [[]] := rfl
  rw [hlocate] at h
  have hroot := directory_of_walkWith h
  simp only [walkWith, hroot, Path.isFiller, beq_self_eq_true, Bool.true_or, if_true,
    Except.ok.injEq] at h
  exact ⟨h.symm, hroot⟩

theorem eq_of_locate_path {l other : Location} (h : Reached tree l)
    (hlocate : tree.locate l.path = .ok other) : other = l := by
  by_cases hne : l = []
  · rw [hne] at hlocate ⊢
    exact (locate_root hlocate).1
  · rw [locate_path hne h] at hlocate
    cases hshort : requireShort l.path with
    | error cause => rw [hshort] at hlocate; exact nomatch hlocate
    | ok done =>
        rw [hshort] at hlocate
        exact (Except.ok.inj hlocate).symm

/-- The root is no file. -/
theorem ne_nil_of_readText_path {l : Location} {t : Text} (h : tree.readText l.path = .ok t) :
    l ≠ [] := by
  rintro rfl
  rw [readText, read, find] at h
  cases hlocate : tree.locate (Location.path []) with
  | error cause =>
      rw [hlocate] at h
      exact nomatch h
  | ok place =>
      obtain ⟨rfl, hroot⟩ := locate_root hlocate
      simp [hlocate, hroot, bind, Except.bind, occupied, throw, throwThe, MonadExceptOf.throw] at h

/-- Where a file can be read, writing to the absolute path of a reached location puts a file there, unless
    it is refused. -/
theorem write_path {l : Location} (hne : l ≠ []) (h : Reached tree l) {t : Text}
    (hread : tree.readText l.path = .ok t) (bytes : List UInt8) :
    tree.write l.path bytes =
      match tree.refusal? l with
      | some cause => .error cause
      | none => .ok (tree.put l bytes) := by
  obtain ⟨hshort, hnode⟩ := (readText_path_eq_ok_iff hne h).mp hread
  have hfile : tree.node? l ≠ some .directory := by
    rw [hnode]
    exact nofun
  rw [write, target, hshort, if_neg (getLast?_path_ne_slash hne h), follow_path hne h]
  simp only [bind, Except.bind, pure, Except.pure, if_neg hfile]
  cases tree.refusal? l with
  | some cause => rfl
  | none => rfl

/-- The location that a path resolves to, if something is there. -/
def destination (tree : FileTree) (p : Path) : Except FileError Location := do
  requirePath p
  return (← tree.occupied (← tree.follow p)).1

theorem resolve_eq_map (p : Path) : tree.resolve p = (tree.destination p).map Location.path := by
  rw [resolve, destination]
  cases requirePath p with
  | error cause => rfl
  | ok done =>
      cases tree.follow p with
      | error cause => rfl
      | ok l =>
          cases hplace : tree.occupied l <;> simp [bind, Except.bind, hplace, Except.map, pure,
            Except.pure]

/-- A path resolves to where it leads. -/
theorem follow_of_destination {p : Path} {l : Location} (h : tree.destination p = .ok l) :
    tree.follow p = .ok l := by
  obtain ⟨_, -, h⟩ := exists_of_bind_eq_ok h
  obtain ⟨place, hfollow, h⟩ := exists_of_bind_eq_ok h
  obtain ⟨⟨location, node⟩, hplace, h⟩ := exists_of_bind_eq_ok h
  rw [occupied] at hplace
  split at hplace
  · obtain rfl := (Prod.mk.inj (Except.ok.inj hplace)).1
    exact hfollow.trans h
  · exact nomatch hplace

/-- What a path resolves to is reached. -/
theorem reached_of_destination (hhere : Reached tree tree.workingDirectory) {p : Path} {l : Location}
    (h : tree.destination p = .ok l) : Reached tree l :=
  reached_of_follow hhere (follow_of_destination h)

end Walking

end Restyle.FileTree

/-! ### What a lookup depends on -/

namespace Restyle

/-- A node without its contents. -/
def Node.shape : Node → Node
  | .file _ => .file []
  | node => node

/-- A file has the shape of files alone. -/
theorem Node.exists_file_of_shape {node : Node} {bytes : List UInt8}
    (h : node.shape = (Node.file bytes).shape) : ∃ other, node = .file other := by
  cases node with
  | file other => exact ⟨other, rfl⟩
  | directory => exact nomatch h
  | link target => exact nomatch h

namespace FileTree

/-- Two trees differ in nothing but the contents of files. -/
structure SameShape (t₁ t₂ : FileTree) : Prop where
  here : t₁.workingDirectory = t₂.workingDirectory
  node : ∀ l, (t₁.node? l).map Node.shape = (t₂.node? l).map Node.shape
  refusal : t₁.refusal? = t₂.refusal?

namespace SameShape

variable {t₁ t₂ : FileTree}

/-- What is at a location is the same, or there is a file in both trees. -/
theorem node?_cases (h : SameShape t₁ t₂) (l : Location) :
    t₁.node? l = t₂.node? l ∨
      ∃ b₁ b₂, t₁.node? l = some (.file b₁) ∧ t₂.node? l = some (.file b₂) := by
  have hnode := h.node l
  cases h₁ : t₁.node? l with
  | none =>
      rw [h₁] at hnode
      exact .inl (Option.map_eq_none_iff.mp hnode.symm).symm
  | some n₁ =>
      cases h₂ : t₂.node? l with
      | none => rw [h₁, h₂] at hnode; exact nomatch hnode
      | some n₂ =>
          rw [h₁, h₂, Option.map_some, Option.map_some, Option.some.injEq] at hnode
          cases n₁ with
          | file b₁ =>
              obtain ⟨b₂, rfl⟩ := Node.exists_file_of_shape hnode.symm
              exact .inr ⟨b₁, b₂, rfl, rfl⟩
          | directory => cases n₂ <;> simp_all [Node.shape]
          | link target => cases n₂ <;> simp_all [Node.shape]

theorem walkWith_eq (h : SameShape t₁ t₂)
    (followLink : Location → List Text → Except FileError Location) (location : Location)
    (segments : List Text) :
    t₁.walkWith followLink location segments = t₂.walkWith followLink location segments := by
  induction segments generalizing location with
  | nil => rfl
  | cons segment rest ih =>
      rw [walkWith, walkWith]
      -- A file is in the way where it is, and no link where it is come upon, whatever it holds.
      rcases h.node?_cases location with hhere | ⟨b₁, b₂, hhere₁, hhere₂⟩
      · rcases h.node?_cases (location ++ [segment]) with hnext | ⟨b₁, b₂, hnext₁, hnext₂⟩
        · simp only [hhere, hnext, ih]
        · simp only [hhere, hnext₁, hnext₂, ih]
      · rw [hhere₁, hhere₂]

theorem walk_eq (h : SameShape t₁ t₂) (links : Nat) : t₁.walk links = t₂.walk links := by
  induction links with
  | zero => exact funext fun location => funext (h.walkWith_eq _ location)
  | succ links ih =>
      rw [walk, walk, ih]
      exact funext fun location => funext (h.walkWith_eq _ location)

/-- Where a path leads does not depend on the contents of files. -/
theorem follow_eq (h : SameShape t₁ t₂) (p : Path) : t₁.follow p = t₂.follow p := by
  rw [follow, follow, h.walk_eq, h.here]

theorem locate_eq (h : SameShape t₁ t₂) (p : Path) : t₁.locate p = t₂.locate p := by
  simp only [locate, h.follow_eq]

theorem reached (h : SameShape t₁ t₂) {l : Location} (hl : Reached t₂ l) : Reached t₁ l := by
  induction hl with
  | root => exact .root
  | @name dir name above directory hname direct ih =>
      refine .name ih ?_ hname fun target htarget => ?_
      · rcases h.node?_cases dir with hsame | ⟨b₁, b₂, -, hfile⟩
        · rw [hsame, directory]
        · rw [directory] at hfile
          exact nomatch hfile
      · rcases h.node?_cases (dir ++ [name]) with hsame | ⟨b₁, b₂, hfile, -⟩
        · exact direct target (hsame ▸ htarget)
        · rw [htarget] at hfile
          exact nomatch hfile

theorem destination_eq (h : SameShape t₁ t₂) (p : Path) :
    t₁.destination p = t₂.destination p := by
  have hplace : ∀ l, (t₁.occupied l).map Prod.fst = (t₂.occupied l).map Prod.fst := by
    intro l
    rw [occupied, occupied]
    rcases h.node?_cases l with hsame | ⟨b₁, b₂, hfile₁, hfile₂⟩
    · rw [hsame]
    · rw [hfile₁, hfile₂]
      rfl
  have hmap : ∀ t : FileTree, t.destination p = (do
      requirePath p
      (t.occupied (← t.follow p)).map Prod.fst) := fun t => rfl
  simp only [hmap, h.follow_eq, hplace]

/-- What a path names is the same, or it is a file in both trees. -/
theorem find_cases (h : SameShape t₁ t₂) (p : Path) :
    t₁.find p = t₂.find p ∨
      ∃ l b₁ b₂, t₁.find p = .ok (l, .file b₁) ∧ t₂.find p = .ok (l, .file b₂) := by
  rw [find, find, ← h.locate_eq]
  cases t₁.locate p with
  | error cause => exact .inl rfl
  | ok l =>
      simp only [bind, Except.bind, occupied]
      rcases h.node?_cases l with hsame | ⟨b₁, b₂, hfile₁, hfile₂⟩
      · exact .inl (by rw [hsame])
      · exact .inr ⟨l, b₁, b₂, by rw [hfile₁], by rw [hfile₂]⟩

theorem isFile_eq (h : SameShape t₁ t₂) (p : Path) : t₁.isFile p = t₂.isFile p := by
  rw [isFile, isFile]
  rcases h.find_cases p with hsame | ⟨l, b₁, b₂, hfile₁, hfile₂⟩
  · rw [hsame]
  · rw [hfile₁, hfile₂]

theorem contains_eq (h : SameShape t₁ t₂) (p : Path) : t₁.contains p = t₂.contains p := by
  rw [contains, contains]
  rcases h.find_cases p with hsame | ⟨l, b₁, b₂, hfile₁, hfile₂⟩
  · rw [hsame]
  · rw [hfile₁, hfile₂]
    rfl

/-- What is read at a path can only differ if what is where it leads does. -/
theorem read_eq (h : SameShape t₁ t₂) {p : Path}
    (hsame : ∀ l, t₁.locate p = .ok l → t₁.node? l = t₂.node? l) : t₁.read p = t₂.read p := by
  have hfind : t₁.find p = t₂.find p := by
    rw [find, find, ← h.locate_eq]
    cases hlocate : t₁.locate p with
    | error cause => rfl
    | ok l => simp only [bind, Except.bind, occupied, hsame l hlocate]
  rw [read, read, hfind]

end SameShape

end FileTree

end Restyle
