import Restyle.Proofs.FileTree

/-!
# Writing Files

What differs after a file was written, and where it is found again.

Writing puts a file at the location that a path leads to, and every other location keeps what it holds.
That the path still leads there has to be shown, since the walk looks at the location before it gets to
it. A walk that goes on from a place has found a directory there, and a directory is not written to. A
walk that ends at the location only asks on the way whether the name that it comes by is that of a link.
It is none: at a link the walk is turned off, and what it is turned off to is above the link or beside
it, from where the link is never come to but by its name, at which the walk is turned off again.

This holds for every tree, also for one in which something stands below a link and a walk starts there.

## Main definitions

* `Wrote`: Two trees differ in the file behind a path, which holds a text in the second.

## Theorems

* `prefix_of_walk`: A walk that ends at a link has started at it or below it.
* `follow_put`: A path leads to the file that was put where it led.
* `wrote_of_write`: What was written is read again, and nothing else has changed.
-/

namespace Restyle.FileTree

variable {tree : FileTree} {l : Location}

/-! ### Walks that end at a link -/

section Links

variable {followLink : Location → List Text → Except FileError Location} {target : Path}

/-- A path that starts at a place or below it is seen from there, or it is the root it starts at. -/
theorem prefix_of_origin {location : Location} {p : Path} (h : l <+: p.origin location) :
    l <+: location := by
  unfold Path.origin at h
  split_ifs at h with habs
  · rw [List.prefix_nil.mp h]
    exact List.nil_prefix
  · exact h

theorem prefix_of_walkWith (hl : tree.node? l = some (.link target))
    (hlink : ∀ location segments, followLink location segments = .ok l → l <+: location)
    {segments : List Text} {location : Location}
    (h : tree.walkWith followLink location segments = .ok l) : l <+: location := by
  induction segments generalizing location with
  | nil =>
      rw [walkWith, Except.ok.injEq] at h
      exact h ▸ List.prefix_rfl
  | cons segment rest ih =>
      obtain ⟨-, hstep⟩ := walkWith_cons_eq_ok_iff.mp h
      cases hstep with
      | filler _ honward => exact ih honward
      | up _ _ honward => exact (ih honward).trans (List.dropLast_prefix location)
      | link _ _ _ _ honward => exact prefix_of_origin (hlink _ _ honward)
      | name _ _ _ hdirect honward =>
          rcases List.prefix_concat_iff.mp (ih honward) with heq | hbelow
          · -- The next place would be the link itself, and the walk is not turned off there.
            rw [← heq] at hdirect
            exact absurd hl (hdirect target)
          · exact hbelow

/-- A walk that ends at a link has started at it or below it. -/
theorem prefix_of_walk (hl : tree.node? l = some (.link target)) (links : Nat)
    {segments : List Text} {location : Location}
    (h : tree.walk links location segments = .ok l) : l <+: location := by
  induction links generalizing segments location with
  | zero => exact prefix_of_walkWith hl (fun _ _ h => by cases h) h
  | succ links ih => exact prefix_of_walkWith hl (fun _ _ h => ih h) h

end Links

/-! ### Walks to a file that was put -/

theorem walkWith_put {follow₁ follow₂ : Location → List Text → Except FileError Location}
    (hl : tree.node? l ≠ some .directory) (bytes : List UInt8)
    (hbelow : ∀ target, tree.node? l = some (.link target) →
      ∀ location segments, follow₁ location segments = .ok l → l <+: location)
    (hlink : ∀ location segments, follow₁ location segments = .ok l →
      follow₂ location segments = .ok l)
    {segments : List Text} {location : Location}
    (h : tree.walkWith follow₁ location segments = .ok l) :
    (tree.put l bytes).walkWith follow₂ location segments = .ok l := by
  induction segments generalizing location with
  | nil => exact h
  | cons segment rest ih =>
      obtain ⟨hdirectory, hstep⟩ := walkWith_cons_eq_ok_iff.mp h
      have hne : location ≠ l := fun heq => hl (heq ▸ hdirectory)
      refine walkWith_cons_eq_ok_iff.mpr ⟨(node?_put_of_ne tree bytes hne).trans hdirectory, ?_⟩
      cases hstep with
      | filler hfiller honward => exact .filler hfiller (ih honward)
      | up hnamed hup honward => exact .up hnamed hup (ih honward)
      | link hnamed hup hshort htarget honward =>
          -- The walk is turned off at another place, since it could not come back to this one.
          have hother : location ++ [segment] ≠ l := by
            rintro rfl
            have hback := prefix_of_origin (hbelow _ htarget _ _ honward)
            simpa using hback.length_le
          exact .link hnamed hup hshort ((node?_put_of_ne tree bytes hother).trans htarget)
            (hlink _ _ honward)
      | name hnamed hup hshort hdirect honward =>
          refine .name hnamed hup hshort (fun target => ?_) (ih honward)
          by_cases hnext : location ++ [segment] = l
          · rw [hnext, node?_put_self]
            exact nofun
          · rw [node?_put_of_ne tree bytes hnext]
            exact hdirect target

theorem walk_put (hl : tree.node? l ≠ some .directory) (bytes : List UInt8) (links : Nat)
    {segments : List Text} {location : Location}
    (h : tree.walk links location segments = .ok l) :
    (tree.put l bytes).walk links location segments = .ok l := by
  induction links generalizing segments location with
  | zero => exact walkWith_put hl bytes (fun _ _ _ _ h => by cases h) (fun _ _ h => by cases h) h
  | succ links ih =>
      exact walkWith_put hl bytes (fun _ htarget _ _ h => prefix_of_walk htarget links h)
        (fun _ _ h => ih h) h

/-- A path leads to the file that was put where it led. -/
theorem follow_put {p : Path} (hl : tree.node? l ≠ some .directory) (bytes : List UInt8)
    (h : tree.follow p = .ok l) : (tree.put l bytes).follow p = .ok l :=
  walk_put hl bytes linkLimit h

/-! ### What was written -/

/-- Two trees differ in nothing but the file behind a path, and in the second it holds a text. -/
structure Wrote (before after : FileTree) (p : Path) (t : Text) : Prop where
  /-- The location that the path leads to, before and after, is the only one that differs, and it may be
      written. -/
  place : ∃ l, before.follow p = .ok l ∧ after.follow p = .ok l ∧ before.refusal? l = none ∧
    after.node? l = some (.file t.toUtf8) ∧
    ∀ other, other ≠ l → after.node? other = before.node? other
  here : after.workingDirectory = before.workingDirectory
  refusal : after.refusal? = before.refusal?
  read : after.readText p = .ok t

/-- What a path is written to is where it leads, which is no directory and may be written. -/
theorem target_eq_ok {p : Path} (h : tree.target p = .ok l) :
    requireShort p = .ok () ∧ tree.follow p = .ok l ∧ tree.node? l ≠ some .directory ∧
      tree.refusal? l = none := by
  obtain ⟨_, hshort, h⟩ := exists_of_bind_eq_ok h
  split_ifs at h with hslash
  · -- A path with a slash at its end is refused, whether or not there is something.
    obtain ⟨_, -, h⟩ := exists_of_bind_eq_ok h
    exact nomatch h
  · obtain ⟨place, hfollow, h⟩ := exists_of_bind_eq_ok h
    split_ifs at h with hdirectory
    · exact nomatch h
    · cases hrefusal : tree.refusal? place with
      | some cause => simp [hrefusal, throw, throwThe, MonadExceptOf.throw] at h
      | none =>
          simp only [hrefusal] at h
          obtain rfl := Except.ok.inj h
          exact ⟨hshort, hfollow, hdirectory, hrefusal⟩

/-- Bytes that are at the end of a path are those of the file there. -/
theorem read_eq_ok {p : Path} {bytes : List UInt8} (hshort : requireShort p = .ok ())
    (hfollow : tree.follow p = .ok l) (hnode : tree.node? l = some (.file bytes)) :
    tree.read p = .ok bytes := by
  simp [read, find, locate, hshort, hfollow, occupied, hnode, bind, Except.bind, pure, Except.pure]

/-- What was written to a path is what is read there, and nothing else has changed. -/
theorem wrote_of_write {after : FileTree} {p : Path} {t : Text}
    (h : tree.write p t.toUtf8 = .ok after) : Wrote tree after p t := by
  obtain ⟨l, htarget, hput⟩ := exists_of_bind_eq_ok h
  obtain rfl := Except.ok.inj hput
  obtain ⟨hshort, hfollow, hdirectory, hwritable⟩ := target_eq_ok htarget
  have hagain := follow_put hdirectory t.toUtf8 hfollow
  have hread := read_eq_ok hshort hagain (node?_put_self tree l t.toUtf8)
  refine ⟨⟨l, hfollow, hagain, hwritable, node?_put_self _ _ _,
    fun other => node?_put_of_ne tree _⟩, rfl, rfl, ?_⟩
  rw [readText, hread]
  simp only [bind, Except.bind, Utf8.decode?_toUtf8]
  rfl

end Restyle.FileTree
