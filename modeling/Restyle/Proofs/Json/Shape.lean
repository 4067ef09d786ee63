import Restyle.Proofs.Json.Grammar

/-!
# Shapes

What decoders take an outline for, said without a decoder.

A decoder fixes an order in which faults are met. Once it comes to an answer the order is gone: a record
that was read says of each of its fields that it was left out or given once, wherever it stood and
whatever unknown members stood around it. So what is known of a record is said member by member, through
the values that are given for one name, and two lemmas relate this to the decoder. One says what a record
that is read has in a field, the other that a record is read if each of its fields can be. Together with
the field's own value being the only one that can be read, they determine the record.

A decoder that answers has looked at the whole outline, and passed over what it did not want. So an
outline that is read is one that can be passed over, which is what the grammar of documents asks for.

## Main definitions

* `Decoder.Reads`: What a decoder takes an outline for.
* `Given`, `IsBool`, `IsText`, `IsList`: The shapes of values.
* `Members.named`, `Members.Readable`, `Members.Gives`: What the members of an object give for a name.
* `Members.Entries`: What they are as the entries of a map.
* `Field.Stores`: Where a field of a record keeps its value.

## Theorems

* `Members.gives_of_record`: What a record that is read has in a field.
* `Members.exists_record`: A record is read if its fields can be.
-/

namespace Restyle.Json

variable {α β σ : Type}

/-- A decoder takes an outline that can be passed over for the values that it holds. -/
def Decoder.Reads (decoder : Decoder α) (holds : Outline → α → Prop) : Prop :=
  ∀ o a, decoder o = .ok a ↔ o.skim = .ok () ∧ holds o a

/-- An outline is a string that can be read as a text. -/
def IsText (o : Outline) (t : Text) : Prop :=
  o = .string (.whole t)

/-- An outline is a boolean. -/
def IsBool (o : Outline) (b : Bool) : Prop :=
  o = .bool b

/-- A value, or null for none. -/
inductive Given (holds : Outline → α → Prop) : Outline → Option α → Prop where
  | null : Given holds .null none
  | value {o : Outline} {a : α} (h : holds o a) : Given holds o (some a)

/-- Items are values up to the closing bracket. -/
inductive EachHolds (holds : Outline → α → Prop) : Items → List α → Prop where
  | close : EachHolds holds .close []
  | item {o : Outline} {rest : Items} {a : α} {as : List α} (h : holds o a)
      (more : EachHolds holds rest as) : EachHolds holds (.item o rest) (a :: as)

/-- An outline is an array of values. -/
def IsList (holds : Outline → α → Prop) (o : Outline) (as : List α) : Prop :=
  ∃ items, o = .array items ∧ EachHolds holds items as

/-- The values that members give for a name, in their order. -/
def Members.named (name : Text) : Members → List Outline
  | .member (.whole t) value rest =>
    if t = name then value :: rest.named name else rest.named name
  | .member _ _ rest => rest.named name
  | _ => []

/-- Members are entries of a map, up to the closing brace, and all their names can be read. -/
inductive Members.Entries (holds : Outline → α → Prop) : Members → List (Text × α) → Prop where
  | close : Entries holds .close []
  | member {name : Text} {o : Outline} {rest : Members} {a : α} {entries : List (Text × α)}
      (h : holds o a) (more : Entries holds rest entries) :
      Entries holds (.member (.whole name) o rest) ((name, a) :: entries)

/-- Every name can be read as a text. -/
def Members.Readable : Members → Prop
  | .member key _ rest => (∃ t, key = .whole t) ∧ rest.Readable
  | _ => True

/-- Members give a value for a name once, or they leave it out. -/
def Members.Gives (members : Members) (name : Text) (holds : Outline → β → Prop) (absent v : β) :
    Prop :=
  (members.named name = [] ∧ v = absent) ∨ ∃ o, members.named name = [o] ∧ holds o v

/-! ### Values -/

theorem bool_reads : Decoder.bool.Reads IsBool := by
  intro o b
  constructor
  · intro h
    cases o with
    | bool b' =>
        cases h
        exact ⟨rfl, rfl⟩
    | _ => exact nomatch h
  · rintro ⟨-, rfl⟩
    rfl

theorem text_reads : Decoder.text.Reads IsText := by
  intro o t
  constructor
  · intro h
    cases o with
    | string q =>
        cases q with
        | whole t' =>
            cases h
            exact ⟨rfl, rfl⟩
        | _ => exact nomatch h
    | _ => exact nomatch h
  · rintro ⟨-, rfl⟩
    rfl

theorem optional_reads {decoder : Decoder α} {holds : Outline → α → Prop} (h : decoder.Reads holds)
    (hnull : ∀ a, ¬ holds .null a) : decoder.optional.Reads (Given holds) := by
  intro o v
  by_cases ho : o = .null
  · subst ho
    constructor
    · rintro ⟨⟩
      exact ⟨rfl, .null⟩
    · rintro ⟨-, hv⟩
      cases hv with
      | null => rfl
      | value h => exact absurd h (hnull _)
  · have hoptional : decoder.optional o = some <$> decoder o := by
      cases o <;> first | rfl | exact absurd rfl ho
    rw [hoptional]
    constructor
    · intro hv
      cases hdecoder : decoder o with
      | error fault =>
          rw [hdecoder] at hv
          exact nomatch hv
      | ok a =>
          rw [hdecoder] at hv
          cases hv
          have hread := (h o a).mp hdecoder
          exact ⟨hread.1, .value hread.2⟩
    · rintro ⟨hskim, hv⟩
      cases hv with
      | null => exact absurd rfl ho
      | value hholds => rw [(h o _).mpr ⟨hskim, hholds⟩]; rfl

theorem each_reads {decoder : Decoder α} {holds : Outline → α → Prop} (h : decoder.Reads holds) :
    ∀ (items : Items) (as : List α),
      items.decode decoder = .ok as ↔ items.skim = .ok () ∧ EachHolds holds items as
  | .close, as => by
    constructor
    · rintro ⟨⟩
      exact ⟨rfl, .close⟩
    · rintro ⟨-, ⟨⟩⟩
      rfl
  | .stop fault, as => ⟨nofun, fun hskim => nomatch hskim.1⟩
  | .item o rest, as => by
    have hdecode : (Items.item o rest).decode decoder = .ok as ↔
        ∃ a as', decoder o = .ok a ∧ rest.decode decoder = .ok as' ∧ a :: as' = as := by
      rw [Items.decode]
      cases decoder o <;> cases rest.decode decoder <;>
        simp [bind, Except.bind, pure, Except.pure]
    rw [hdecode, Items.skim_item]
    constructor
    · rintro ⟨a, as, ha, has, rfl⟩
      rcases (h o a).mp ha with ⟨hskim, ha⟩
      rcases (each_reads h rest as).mp has with ⟨hskim', has⟩
      exact ⟨⟨hskim, hskim'⟩, .item ha has⟩
    · rintro ⟨⟨hskim, hskim'⟩, ha, has⟩
      exact ⟨_, _, (h o _).mpr ⟨hskim, ‹_›⟩, (each_reads h rest _).mpr ⟨hskim', ‹_›⟩, rfl⟩

theorem list_reads {decoder : Decoder α} {holds : Outline → α → Prop} (h : decoder.Reads holds) :
    decoder.list.Reads (IsList holds) := by
  intro o as
  cases o with
  | array items =>
      refine (each_reads h items as).trans (and_congr_right fun _ => ?_)
      constructor
      · exact fun heach => ⟨items, rfl, heach⟩
      · rintro ⟨_, ⟨⟩, heach⟩
        exact heach
  | _ =>
      constructor
      · exact nofun
      · rintro ⟨-, _, ⟨⟩, -⟩

/-! ### Members -/

theorem Members.named_cons (name t : Text) (value : Outline) (rest : Members) :
    (Members.member (.whole t) value rest).named name =
      if t = name then value :: rest.named name else rest.named name := rfl

/-- Members that can be passed over give values that can. -/
theorem Members.skim_of_mem_named {name : Text} {o : Outline} :
    ∀ {members : Members}, members.skim = .ok () → o ∈ members.named name → o.skim = .ok ()
  | .member key value rest, hskim, ho => by
    rcases Members.skim_member.mp hskim with ⟨-, hvalue, hrest⟩
    cases key with
    | whole t =>
        rw [named_cons] at ho
        split at ho
        · rcases List.mem_cons.mp ho with rfl | ho
          · exact hvalue
          · exact skim_of_mem_named hrest ho
        · exact skim_of_mem_named hrest ho
    | _ => exact skim_of_mem_named hrest ho

/-- Members are gathered as the entries that they are. -/
theorem Members.fold_eq_ok_iff {decoder : Decoder α} {holds : Outline → α → Prop}
    (h : decoder.Reads holds) {insert : Text → α → β → β} :
    ∀ {members : Members} {b b' : β}, members.fold decoder insert b = .ok b' ↔
      members.skim = .ok () ∧ ∃ entries, members.Entries holds entries ∧
        entries.foldl (fun b e => insert e.1 e.2 b) b = b'
  | .close, b, b' => by
    constructor
    · rintro ⟨⟩
      exact ⟨rfl, [], .close, rfl⟩
    · rintro ⟨-, _, ⟨⟩, rfl⟩
      rfl
  | .stop fault, _, _ => ⟨nofun, fun hskim => nomatch hskim.1⟩
  | .dangling fault, _, _ => ⟨nofun, fun hskim => nomatch hskim.1⟩
  | .unkeyed first, _, _ => ⟨nofun, fun hskim => nomatch hskim.1⟩
  | .member key o rest, b, b' => by
    have hfold : (Members.member key o rest).fold decoder insert b = .ok b' ↔
        ∃ name a, key = .whole name ∧ decoder o = .ok a ∧
          rest.fold decoder insert (insert name a b) = .ok b' := by
      rw [Members.fold]
      cases key <;> cases decoder o <;> simp [bind, Except.bind, Quoted.text]
    rw [hfold, Members.skim_member]
    constructor
    · rintro ⟨name, a, rfl, ha, hrest⟩
      rcases (h o a).mp ha with ⟨hskim, ha⟩
      rcases (fold_eq_ok_iff h).mp hrest with ⟨hskim', entries, hentries, rfl⟩
      exact ⟨⟨rfl, hskim, hskim'⟩, _, .member ha hentries, rfl⟩
    · rintro ⟨⟨-, hskim, hskim'⟩, _, hentries, rfl⟩
      cases hentries with
      | member ha hentries =>
          exact ⟨_, _, rfl, (h o _).mpr ⟨hskim, ha⟩,
            (fold_eq_ok_iff h).mpr ⟨hskim', _, hentries, rfl⟩⟩

/-- What is given for a name is what a decoder of it answers. -/
theorem Members.gives_iff {decoder : Decoder β} {holds : Outline → β → Prop}
    (h : decoder.Reads holds) {members : Members} (hskim : members.skim = .ok ()) {name : Text}
    {absent v : β} :
    members.Gives name (decoder · = .ok ·) absent v ↔ members.Gives name holds absent v := by
  refine or_congr_right (exists_congr fun o => and_congr_right fun hnamed => ?_)
  have ho : o.skim = .ok () := skim_of_mem_named hskim (hnamed ▸ List.mem_singleton_self o)
  simp [h o v, ho]

/-- A field of a record is the one of its name, and its value is kept where no other field changes it. -/
structure Field.Stores (fields : List (Field σ)) (f : Field σ) (decoder : Decoder β)
    (put : β → σ → σ) (get : σ → β) : Prop where
  find : fields.find? (·.name = f.name) = some f
  set : ∀ o, f.set o = put <$> decoder o
  get_put : ∀ v r, get (put v r) = v
  others : ∀ g ∈ fields, g.name ≠ f.name → ∀ o u r, g.set o = .ok u → get (u r) = get r

/-- What becomes of a member goes by its name. -/
theorem Members.record_whole {fields : List (Field σ)} {seen : List Text} {name : Text}
    {value : Outline} (r : σ) (rest : Members) :
    (Members.member (.whole name) value rest).record fields seen r =
      (match fields.find? (·.name = name) with
      | some field => do
        if name ∈ seen then throw .mistyped
        let update ← field.set value
        rest.record fields (name :: seen) (update r)
      | none => do
        value.skim
        rest.record fields seen r) :=
  rfl

/-- What it takes to read one more member. -/
theorem Members.record_member {fields : List (Field σ)} {seen : List Text} {r r' : σ} {key : Quoted}
    {value : Outline} {rest : Members} :
    (Members.member key value rest).record fields seen r = .ok r' ↔
      ∃ t, key = .whole t ∧
        ((∃ f u, fields.find? (·.name = t) = some f ∧ t ∉ seen ∧ f.set value = .ok u ∧
            rest.record fields (t :: seen) (u r) = .ok r') ∨
          (fields.find? (·.name = t) = none ∧ value.skim = .ok () ∧
            rest.record fields seen r = .ok r')) := by
  cases key with
  | unreadable => exact ⟨nofun, nofun⟩
  | cut strict skimmed => exact ⟨nofun, nofun⟩
  | whole t =>
      rw [record_whole]
      simp only [bind, Except.bind, Quoted.whole.injEq, exists_eq_left']
      cases fields.find? (·.name = t) with
      | none => cases value.skim <;> simp
      | some f =>
          by_cases ht : t ∈ seen
          · simp [ht]
          · cases hset : f.set value <;> simp [ht, hset]

theorem Field.Stores.exists_value {fields : List (Field σ)} {f : Field σ} {decoder : Decoder β}
    {put : β → σ → σ} {get : σ → β} (hf : f.Stores fields decoder put get) {o : Outline} {u : σ → σ}
    (h : f.set o = .ok u) : ∃ v, decoder o = .ok v ∧ u = put v := by
  rw [hf.set] at h
  cases ho : decoder o with
  | error fault =>
      rw [ho] at h
      exact nomatch h
  | ok v =>
      rw [ho] at h
      cases h
      exact ⟨v, rfl, rfl⟩

/-- A record that is read has no faults and only names that can be read. -/
theorem Members.skim_of_record {fields : List (Field σ)}
    (hskim : ∀ f ∈ fields, ∀ o u, f.set o = .ok u → o.skim = .ok ()) :
    ∀ {members : Members} {seen : List Text} {r r' : σ},
      members.record fields seen r = .ok r' → members.skim = .ok () ∧ members.Readable
  | .close, _, _, _, _ => ⟨rfl, trivial⟩
  | .member key value rest, seen, r, r', h => by
    rcases record_member.mp h with ⟨t, rfl, ⟨f, u, hf, -, hset, hrest⟩ | ⟨-, hvalue, hrest⟩⟩
    · rcases skim_of_record hskim hrest with ⟨hrestSkim, hreadable⟩
      have hvalue := hskim f (List.mem_of_find?_eq_some hf) value u hset
      exact ⟨skim_member.mpr ⟨rfl, hvalue, hrestSkim⟩, ⟨t, rfl⟩, hreadable⟩
    · rcases skim_of_record hskim hrest with ⟨hrestSkim, hreadable⟩
      exact ⟨skim_member.mpr ⟨rfl, hvalue, hrestSkim⟩, ⟨t, rfl⟩, hreadable⟩

/-- A record that is read has in a field what is given for its name. Where the name has come up before,
    it does not come up again. -/
theorem Members.gives_of_record {fields : List (Field σ)} {f : Field σ} {decoder : Decoder β}
    {put : β → σ → σ} {get : σ → β} (hf : f.Stores fields decoder put get) :
    ∀ {members : Members} {seen : List Text} {r r' : σ}, members.record fields seen r = .ok r' →
      members.Gives f.name (decoder · = .ok ·) (get r) (get r') ∧
        (f.name ∈ seen → members.named f.name = [])
  | .close, seen, r, r', h => by
    cases h
    exact ⟨.inl ⟨rfl, rfl⟩, fun _ => rfl⟩
  | .member key value rest, seen, r, r', h => by
    rcases record_member.mp h with ⟨t, rfl, ⟨g, u, hg, hseen, hset, hrest⟩ | ⟨hnone, -, hrest⟩⟩
    · rcases gives_of_record hf hrest with ⟨hgives, hagain⟩
      have hname : g.name = t := by simpa using List.find?_some hg
      by_cases ht : t = f.name
      · subst ht
        obtain rfl : g = f := Option.some.inj (hg.symm.trans hf.find)
        -- The name has come up now, so the rest gives nothing more for it.
        have hempty := hagain (List.mem_cons_self ..)
        rcases hf.exists_value hset with ⟨v, hvalue, rfl⟩
        have hget : get r' = v := by
          rcases hgives with ⟨-, hget⟩ | ⟨o, hnamed, -⟩
          · rw [hget, hf.get_put]
          · exact nomatch hempty.symm.trans hnamed
        refine ⟨.inr ⟨value, ?_, hget ▸ hvalue⟩, fun hmem => absurd hmem hseen⟩
        rw [named_cons, if_pos rfl, hempty]
      · have hothers := hf.others g (List.mem_of_find?_eq_some hg) (hname ▸ ht) value u r hset
        rw [Gives, named_cons, if_neg ht, ← hothers]
        exact ⟨hgives, fun hmem => hagain (List.mem_cons_of_mem _ hmem)⟩
    · rcases gives_of_record hf hrest with ⟨hgives, hagain⟩
      have ht : t ≠ f.name := by
        rintro rfl
        exact nomatch hnone.symm.trans hf.find
      rw [Gives, named_cons, if_neg ht]
      exact ⟨hgives, hagain⟩

/-- A record is read if what is given for each of its names can be. -/
theorem Members.exists_record {fields : List (Field σ)} :
    ∀ {members : Members} (seen : List Text) (r : σ), members.skim = .ok () → members.Readable →
      (∀ f ∈ fields, members.named f.name = [] ∨
        f.name ∉ seen ∧ ∃ o u, members.named f.name = [o] ∧ f.set o = .ok u) →
      ∃ r', members.record fields seen r = .ok r'
  | .close, seen, r, _, _, _ => ⟨r, rfl⟩
  | .member key value rest, seen, r, hskim, ⟨⟨t, hkey⟩, hreadable⟩, hfields => by
    rcases skim_member.mp hskim with ⟨-, hvalue, hrest⟩
    subst hkey
    cases hfind : fields.find? (·.name = t) with
    | none =>
        obtain ⟨r', hr'⟩ := exists_record seen r hrest hreadable fun f hf => by
          have ht : t ≠ f.name := by
            rintro rfl
            simpa using List.find?_eq_none.mp hfind f hf
          simpa [named_cons, ht] using hfields f hf
        exact ⟨r', record_member.mpr ⟨t, rfl, .inr ⟨hfind, hvalue, hr'⟩⟩⟩
    | some g =>
        have hname : g.name = t := by simpa using List.find?_some hfind
        have hg := hfields g (List.mem_of_find?_eq_some hfind)
        rw [named_cons, if_pos hname.symm, hname] at hg
        rcases hg with hg | ⟨hseen, o, u, hg, hset⟩
        · exact nomatch hg
        rcases List.cons.inj hg with ⟨rfl, hempty⟩
        -- Behind this member the name is one that has come up before, and is given no value.
        obtain ⟨r', hr'⟩ := exists_record (t :: seen) (u r) hrest hreadable fun f hf => by
          by_cases ht : t = f.name
          · exact .inl (ht ▸ hempty)
          · simpa [named_cons, ht, Ne.symm ht] using hfields f hf
        exact ⟨r', record_member.mpr ⟨t, rfl, .inl ⟨g, u, hfind, hseen, hset, hr'⟩⟩⟩

theorem Members.Gives.unique {members : Members} {name : Text} {decoder : Decoder β} {absent v v' : β}
    (h : members.Gives name (decoder · = .ok ·) absent v)
    (h' : members.Gives name (decoder · = .ok ·) absent v') : v = v' := by
  rcases h with ⟨hnone, rfl⟩ | ⟨o, hsome, ho⟩
  · rcases h' with ⟨-, rfl⟩ | ⟨o', hsome', -⟩
    · rfl
    · exact nomatch hnone.symm.trans hsome'
  · rcases h' with ⟨hnone', -⟩ | ⟨o', hsome', ho'⟩
    · exact nomatch hnone'.symm.trans hsome
    · obtain rfl : o = o' := (List.cons.inj (hsome.symm.trans hsome')).1
      exact Except.ok.inj (ho.symm.trans ho')

/-- An object is read as the one record that has what is given for its fields. -/
theorem Members.record_eq_ok_iff {fields : List (Field σ)} (initial r : σ) (members : Members)
    (gives : σ → Prop) (hskim : ∀ f ∈ fields, ∀ o u, f.set o = .ok u → o.skim = .ok ())
    (hgives : ∀ r', members.record fields [] initial = .ok r' → gives r')
    (settable : gives r → ∀ f ∈ fields, members.named f.name = [] ∨
      f.name ∉ [] ∧ ∃ o u, members.named f.name = [o] ∧ f.set o = .ok u)
    (unique : ∀ {r r'}, gives r → gives r' → r = r') :
    members.record fields [] initial = .ok r ↔
      members.skim = .ok () ∧ members.Readable ∧ gives r := by
  constructor
  · intro h
    rcases skim_of_record hskim h with ⟨hmembers, hnames⟩
    exact ⟨hmembers, hnames, hgives r h⟩
  · rintro ⟨hmembers, hnames, hr⟩
    -- Some record is read. It has in its fields what this one has, so it is this one.
    rcases exists_record [] initial hmembers hnames (settable hr) with ⟨r', hr'⟩
    rwa [unique (hgives r' hr') hr] at hr'

/-- A field that puts the value it decodes into the record. -/
def Field.putting (name : Text) (omissible : Bool) (decoder : Decoder β) (put : β → σ → σ) :
    Field σ where
  name
  set o := put <$> decoder o
  omissible

section Putting

variable {name : Text} {omissible : Bool} {decoder : Decoder β} {put : β → σ → σ}

theorem Field.putting_set {o : Outline} {u : σ → σ} :
    (putting name omissible decoder put).set o = .ok u ↔ ∃ v, decoder o = .ok v ∧ put v = u := by
  change put <$> decoder o = .ok u ↔ _
  cases decoder o <;> simp

theorem Field.skim_of_set_putting {holds : Outline → β → Prop} (h : decoder.Reads holds) {o : Outline}
    {u : σ → σ} (hset : (putting name omissible decoder put).set o = .ok u) : o.skim = .ok () := by
  rcases putting_set.mp hset with ⟨v, hv, -⟩
  exact ((h o v).mp hv).1

theorem Members.Gives.settable {members : Members} {absent v : β}
    (h : members.Gives name (decoder · = .ok ·) absent v) :
    members.named name = [] ∨ name ∉ [] ∧
      ∃ o u, members.named name = [o] ∧ (Field.putting name omissible decoder put).set o = .ok u := by
  rcases h with ⟨hnone, -⟩ | ⟨o, hsome, ho⟩
  · exact .inl hnone
  · exact .inr ⟨List.not_mem_nil, o, put v, hsome, Field.putting_set.mpr ⟨v, ho, rfl⟩⟩

/-- A decoder of a field wants one more item. -/
theorem Items.record_putting {fields : List (Field σ)} {r r' : σ} {o : Outline} {rest : Items} :
    (Items.item o rest).record (Field.putting name omissible decoder put :: fields) r = .ok r' ↔
      ∃ v, decoder o = .ok v ∧ rest.record fields (put v r) = .ok r' := by
  rw [Items.record]
  change (put <$> decoder o >>= fun update => rest.record fields (update r)) = .ok r' ↔ _
  cases decoder o <;> simp [bind, Except.bind]

theorem Items.record_nil {r r' : σ} {items : Items} :
    items.record [] r = .ok r' ↔ items = .close ∧ r = r' := by
  cases items <;> simp [Items.record]

/-- An outline is a record of one field: an object, or an array of no item or one. -/
inductive SoleField (name : Text) (holds : Outline → β → Prop) (absent : β) : Outline → β → Prop where
  | object {members : Members} {v : β} (names : members.Readable)
      (gives : members.Gives name holds absent v) : SoleField name holds absent (.object members) v
  | omitted : SoleField name holds absent (.array .close) absent
  | array {o : Outline} {v : β} (h : holds o v) :
      SoleField name holds absent (.array (.item o .close)) v

/-- An object is a record of one field by what is given for it. -/
theorem Members.record_sole (name : Text) (omissible : Bool) {holds : Outline → β → Prop}
    (h : decoder.Reads holds) (put : β → σ → σ) (get : σ → β) (get_put : ∀ v r, get (put v r) = v)
    (ext : ∀ {r r' : σ}, get r = get r' → r = r') (initial r : σ) (members : Members) :
    members.record [Field.putting name omissible decoder put] [] initial = .ok r ↔
      members.skim = .ok () ∧ members.Readable ∧ members.Gives name holds (get initial) (get r) := by
  have hstores : (Field.putting name omissible decoder put).Stores
      [Field.putting name omissible decoder put] decoder put get := by
    refine ⟨by simp, fun _ => rfl, get_put, fun g hg hname => ?_⟩
    rw [List.mem_singleton.mp hg] at hname
    exact absurd rfl hname
  have hrecord := Members.record_eq_ok_iff initial r members
    (fun r => members.Gives name (decoder · = .ok ·) (get initial) (get r))
    (List.forall_mem_singleton.mpr fun o u => Field.skim_of_set_putting h)
    (fun r' hr' => (Members.gives_of_record hstores hr').1)
    (fun hgives => List.forall_mem_singleton.mpr hgives.settable)
    fun hgives hgives' => ext (hgives.unique hgives')
  refine hrecord.trans (and_congr_right fun hskim => ?_)
  rw [Members.gives_iff h hskim]

theorem soleField_reads (name : Text) {holds : Outline → β → Prop} (h : decoder.Reads holds)
    (put : β → σ → σ) (get : σ → β) (get_put : ∀ v r, get (put v r) = v)
    (ext : ∀ {r r' : σ}, get r = get r' → r = r') (initial : σ) :
    (Decoder.record [Field.putting name true decoder put] initial).Reads fun o r =>
      SoleField name holds (get initial) o (get r) := by
  intro o r
  cases o with
  | object members =>
      refine (Members.record_sole name true h put get get_put ext initial r members).trans
        (and_congr_right fun hskim => ?_)
      constructor
      · rintro ⟨hnames, hgives⟩
        exact .object hnames hgives
      · rintro ⟨hnames, hgives⟩
        exact ⟨hnames, hgives⟩
  | array items =>
      change items.record _ initial = .ok r ↔ _
      cases items with
      | close =>
          constructor
          · rintro ⟨⟩
            exact ⟨rfl, .omitted⟩
          · rintro ⟨-, hsole⟩
            generalize hv : get r = v at hsole
            cases hsole
            rw [← ext hv]
            rfl
      | stop fault => exact ⟨nofun, fun hskim => nomatch hskim.1⟩
      | item o rest =>
          rw [Items.record_putting]
          constructor
          · rintro ⟨v, hv, hrest⟩
            rcases Items.record_nil.mp hrest with ⟨rfl, rfl⟩
            rcases (h o v).mp hv with ⟨hskim, hholds⟩
            exact ⟨Items.skim_item.mpr ⟨hskim, rfl⟩, .array ((get_put v initial).symm ▸ hholds)⟩
          · rintro ⟨hskim, ⟨⟩⟩
            refine ⟨get r, (h o _).mpr ⟨(Items.skim_item.mp hskim).1, ‹_›⟩, ?_⟩
            exact Items.record_nil.mpr ⟨rfl, ext (get_put _ _)⟩
  | _ =>
      constructor
      · exact nofun
      · rintro ⟨-, ⟨⟩⟩

end Putting

end Restyle.Json
