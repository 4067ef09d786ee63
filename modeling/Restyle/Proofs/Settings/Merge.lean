import Mathlib.Data.List.Nodup
import Restyle.Proofs.Settings.RoundTrip

/-!
# Partial Settings

What a settings document that lists only some of the settings is read as.

Every setting has a default, so a document may list any of them, in any order, and beside others that
nobody knows. What it is read as is said here setting by setting: a setting that is listed has the value
listed, and one that is not has its default. A name that is listed twice gives no value, and neither does
a value of the wrong type. Then the document as a whole is refused, and where settings are needed all the
same, all of them have their defaults.

Only what is given for the known names matters. Blanks are gone once a document has an outline, and so is
the spelling of its strings. The values of unknown names are passed over, however deep they nest and
whatever numbers and strings are in them. The names themselves have to be read, since one does not know
before whether one wants them, and so has every string that a setting takes. A string that escapes half
of a surrogate pair is no text, and cannot be read.

## Main definitions

* `Scopes.last?`: The overrides that a list of entries gives a scope.
* `IsStyle`, `IsOverrides`, `IsScopes`: The shapes of values.
* `Settings.Lists`: Members list what settings have beyond their defaults.
* `Settings.keys`, `Json.Members.Misuses`: The known names, and members that misuse one.

## Theorems

* `Scopes.get?_foldl_insert`: Of several entries for a scope the last counts.
* `Settings.record_fields`: Members are read as the settings that they list.
* `Settings.ofText_merges`: A document is read as the settings that it lists, or not at all.
-/

namespace Restyle

/-! ### Scopes -/

namespace Scopes

/-- The overrides that entries give a scope. Of several entries the last counts. -/
def last? (name : Text) (entries : List (Text × ScopeOverrides)) : Option ScopeOverrides :=
  (entries.reverse.find? (·.1 = name)).map (·.2)

theorem get?_insert (s : Scopes) (name name' : Text) (o : ScopeOverrides) :
    (s.insert name o).get? name' = if name = name' then some o else s.get? name' := by
  have hentries : ∀ entries : List (Text × ScopeOverrides),
      ((insertEntry name o entries).find? (·.1 = name')).map (·.2) =
        if name = name' then some o else (entries.find? (·.1 = name')).map (·.2) := by
    intro entries
    induction entries with
    | nil => by_cases h : name = name' <;> simp [insertEntry, h]
    | cons e rest ih =>
        rw [insertEntry]
        by_cases h : name = name'
        · subst h
          rw [if_pos rfl] at ih ⊢
          split
          · simp
          · next hne =>
              split
              · simp
              · rw [List.find?_cons_of_neg (by simpa using Ne.symm hne), ih]
        · rw [if_neg h] at ih ⊢
          split
          · next heq =>
              -- The entry that is replaced is not the one looked for, either.
              rw [List.find?_cons_of_neg (by simpa using h),
                List.find?_cons_of_neg (by simpa [← heq] using h)]
          · split
            · rw [List.find?_cons_of_neg (by simpa using h)]
            · rw [List.find?_cons, List.find?_cons]
              split
              · rfl
              · exact ih
  exact hentries s.entries

/-- Entries that are set one after the other are found, the last of a name before the others. -/
theorem get?_foldl_insert (entries : List (Text × ScopeOverrides)) (s : Scopes) (name : Text) :
    (entries.foldl (fun s e => s.insert e.1 e.2) s).get? name =
      (last? name entries).or (s.get? name) := by
  induction entries generalizing s with
  | nil => rfl
  | cons e entries ih =>
      -- The first entry counts only if no later one has its name.
      have hlast : last? name (e :: entries) =
          (last? name entries).or (if e.1 = name then some e.2 else none) := by
        rw [last?, List.reverse_cons, List.find?_append, last?]
        by_cases h : e.1 = name <;> cases entries.reverse.find? (·.1 = name) <;> simp [h]
      rw [List.foldl_cons, ih, get?_insert, hlast, Option.or_assoc]
      by_cases h : e.1 = name
      · rw [if_pos h, if_pos h, Option.some_or]
      · rw [if_neg h, if_neg h, Option.none_or]

/-- A map is what is found in it. -/
theorem ext_get? {s s' : Scopes} (h : ∀ name, s.get? name = s'.get? name) : s = s' := by
  have hnodup := List.Nodup.of_map _ s.nodup_names
  have hnodup' := List.Nodup.of_map _ s'.nodup_names
  refine eq_of_perm ((List.perm_ext_iff_of_nodup hnodup hnodup').mpr fun e => ?_)
  rw [← get?_eq_some_iff s e.1 e.2, ← get?_eq_some_iff s' e.1 e.2, h]

end Scopes

/-! ### Values -/

open Json (Outline Members Decoder Document Source)

/-- An outline is a style: its name, or an object with nothing in it but the name. -/
inductive IsStyle : Outline → Style → Prop where
  | named (style : Style) : IsStyle (.string (.whole style.name)) style
  | keyed (style : Style) : IsStyle (.object (.member (.whole style.name) .null .close)) style

/-- An outline is the overrides of a scope: an object with a choice that is given at most once and may
    be null, or an array of that. -/
inductive IsOverrides : Outline → ScopeOverrides → Prop where
  | object {members : Members} {o : ScopeOverrides} (names : members.Readable)
      (gives : members.Gives "formatOnSave".toList (Json.Given Json.IsBool) none o.formatOnSave) :
      IsOverrides (.object members) o
  | array {value : Outline} {o : ScopeOverrides} (h : Json.Given Json.IsBool value o.formatOnSave) :
      IsOverrides (.array (.item value .close)) o

/-- An outline is the overrides of all scopes: an object with overrides for each name. -/
def IsScopes (o : Outline) (s : Scopes) : Prop :=
  ∃ members entries, o = .object members ∧ members.Entries IsOverrides entries ∧
    ∀ name, s.get? name = Scopes.last? name entries

theorem ofName?_eq_some_iff {t : Text} {style : Style} :
    Style.ofName? t = some style ↔ t = style.name := by
  constructor
  · intro h
    have hname := List.find?_some h
    exact (of_decide_eq_true hname).symm
  · rintro rfl
    exact Style.ofName?_name style

theorem decodeName_eq_ok_iff {key : Json.Quoted} {style : Style} :
    Style.decodeName key = .ok style ↔ key = .whole style.name := by
  simp only [Style.decodeName, bind, Except.bind]
  cases key with
  | whole t =>
      rw [Json.Quoted.whole.injEq, ← ofName?_eq_some_iff]
      simp only [Json.Quoted.text]
      cases Style.ofName? t with
      | none => simp [throw, throwThe, MonadExceptOf.throw]
      | some style' => simp [pure, Except.pure]
  | unreadable => simp [Json.Quoted.text]
  | cut strict skimmed => simp [Json.Quoted.text]

/-- An object is read as a style if it has the name and null, and nothing else. -/
theorem decoder_member_eq_ok_iff {key : Json.Quoted} {value : Outline} {rest : Members}
    {style : Style} :
    Style.decoder (.object (.member key value rest)) = .ok style ↔
      key = .whole style.name ∧ value = .null ∧ rest = .close := by
  rw [← decodeName_eq_ok_iff]
  simp only [Style.decoder, bind, Except.bind]
  cases Style.decodeName key with
  | error fault => simp
  | ok style' =>
      cases value with
      | null =>
          -- Behind the name and null only the closing brace is accepted.
          cases rest <;>
            simp [Decoder.unit, pure, Except.pure, throw, throwThe, MonadExceptOf.throw]
      | _ => simp [Decoder.unit]

theorem style_reads : Style.decoder.Reads IsStyle := by
  intro o style
  constructor
  · intro h
    cases o with
    | string key =>
        rw [Style.decoder, decodeName_eq_ok_iff] at h
        subst h
        exact ⟨rfl, .named style⟩
    | object members =>
        cases members with
        | member key value rest =>
            obtain ⟨rfl, rfl, rfl⟩ := decoder_member_eq_ok_iff.mp h
            exact ⟨rfl, .keyed style⟩
        | _ => cases h
    | _ => cases h
  · rintro ⟨-, h⟩
    cases h with
    | named => exact decodeName_eq_ok_iff.mpr rfl
    | keyed => exact decoder_member_eq_ok_iff.mpr ⟨rfl, rfl, rfl⟩

theorem overrides_reads : Settings.overridesDecoder.Reads IsOverrides := by
  have hchoice : Decoder.bool.optional.Reads (Json.Given Json.IsBool) :=
    Json.optional_reads Json.bool_reads nofun
  intro o r
  cases o with
  | object members =>
      refine (Members.record_sole "formatOnSave".toList false hchoice
        (fun v (r : ScopeOverrides) => { r with formatOnSave := v }) ScopeOverrides.formatOnSave
        (fun _ _ => rfl) (fun h => congrArg ScopeOverrides.mk h) {} r members).trans
        (and_congr_right fun hskim => ?_)
      constructor
      · rintro ⟨hnames, hgives⟩
        exact .object hnames hgives
      · rintro ⟨hnames, hgives⟩
        exact ⟨hnames, hgives⟩
  | array items =>
      cases items with
      | close => exact ⟨nofun, fun h => nomatch h.2⟩
      | stop fault => exact ⟨nofun, fun h => nomatch h.1⟩
      | item value rest =>
          refine Json.Items.record_putting.trans ?_
          constructor
          · rintro ⟨v, hv, hrest⟩
            obtain ⟨rfl, rfl⟩ := Json.Items.record_nil.mp hrest
            obtain ⟨hskim, hholds⟩ := (hchoice value v).mp hv
            exact ⟨Json.Items.skim_item.mpr ⟨hskim, rfl⟩, .array hholds⟩
          · rintro ⟨hskim, hholds⟩
            cases hholds with
            | array h =>
                have hvalue := (hchoice value _).mpr ⟨(Json.Items.skim_item.mp hskim).1, h⟩
                exact ⟨_, hvalue, Json.Items.record_nil.mpr ⟨rfl, rfl⟩⟩
  | _ =>
      constructor
      · exact nofun
      · rintro ⟨-, ⟨⟩⟩

theorem scopes_reads : Settings.scopesDecoder.Reads IsScopes := by
  intro o s
  cases o with
  | object members =>
      refine (Members.fold_eq_ok_iff overrides_reads).trans (and_congr_right fun hskim => ?_)
      constructor
      · rintro ⟨entries, hentries, rfl⟩
        refine ⟨members, entries, rfl, hentries, fun name => ?_⟩
        exact (Scopes.get?_foldl_insert entries .empty name).trans Option.or_none
      · rintro ⟨_, entries, ⟨⟩, hentries, hget⟩
        refine ⟨entries, hentries, Scopes.ext_get? fun name => ?_⟩
        rw [hget]
        exact (Scopes.get?_foldl_insert entries .empty name).trans Option.or_none
  | _ =>
      constructor
      · exact nofun
      · rintro ⟨-, _, _, ⟨⟩, -⟩

/-! ### Names that are misused -/

/-- The scalars of JSON. -/
inductive Scalar where
  | null
  | boolean
  | number
  | string
  deriving DecidableEq

/-- The scalar that an outline is, if it is one. -/
def Scalar.of? : Outline → Option Scalar
  | .null => some .null
  | .bool _ => some .boolean
  | .number _ => some .number
  | .string _ => some .string
  | _ => none

/-- Members give several values for a name, or a scalar of another type than the one wanted, if any. -/
def Json.Members.Misuses (members : Members) (name : Text) (wanted : Option Scalar) : Prop :=
  2 ≤ (members.named name).length ∨
    ∃ o ∈ members.named name, ∃ scalar, Scalar.of? o = some scalar ∧ wanted ≠ some scalar

/-- What is given for a name goes by the values that stand behind it. -/
theorem Json.Members.Gives.congr {β : Type} {members members' : Members} {name : Text}
    {holds : Outline → β → Prop} {absent v : β} (h : members.Gives name holds absent v)
    (hnamed : members'.named name = members.named name) : members'.Gives name holds absent v := by
  rw [Json.Members.Gives, hnamed]
  exact h

/-- What is given for a name is given once and is of the type wanted. -/
theorem Json.Members.Gives.not_misuses {β : Type} {members : Members} {name : Text}
    {holds : Outline → β → Prop} {absent v : β} {wanted : Option Scalar}
    (h : members.Gives name holds absent v)
    (hwanted : ∀ o v, holds o v → ∀ scalar, Scalar.of? o = some scalar → wanted = some scalar) :
    ¬ members.Misuses name wanted := by
  rcases h with ⟨hnone, -⟩ | ⟨o, hsome, ho⟩
  · -- Nothing is given for the name, so nothing can be wrong with it.
    rintro (htwo | ⟨o, ho, -⟩)
    · rw [hnone] at htwo
      exact absurd htwo (by decide)
    · rw [hnone] at ho
      cases ho
  · rintro (htwo | ⟨o', ho', scalar, hscalar, hne⟩)
    · rw [hsome, List.length_singleton] at htwo
      exact absurd htwo (by decide)
    · rw [hsome, List.mem_singleton] at ho'
      subst ho'
      exact hne (hwanted _ v ho scalar hscalar)

namespace Settings

/-! ### Fields -/

/-- Members list what settings have beyond their defaults, where the shapes of values are given. -/
structure ListsBy (bool : Outline → Bool → Prop) (style : Outline → Style → Prop)
    (text : Outline → Text → Prop) (scopes : Outline → Scopes → Prop) (members : Members)
    (s : Settings) : Prop where
  formatOnSave :
    members.Gives "formatOnSave".toList bool ({} : Settings).formatOnSave s.formatOnSave
  style : members.Gives "style".toList style ({} : Settings).style s.style
  checkStyleDevDependencies :
    members.Gives "checkStyleDevDependencies".toList bool
      ({} : Settings).checkStyleDevDependencies s.checkStyleDevDependencies
  honorPackageConfig :
    members.Gives "honorPackageConfig".toList bool ({} : Settings).honorPackageConfig
      s.honorPackageConfig
  usePrettier : members.Gives "usePrettier".toList bool ({} : Settings).usePrettier s.usePrettier
  nodePath : members.Gives "nodePath".toList text ({} : Settings).nodePath s.nodePath
  scopes : members.Gives "scopes".toList scopes ({} : Settings).scopes s.scopes

/-- Members list what settings have beyond their defaults. -/
abbrev Lists : Members → Settings → Prop :=
  ListsBy Json.IsBool IsStyle Json.IsText IsScopes

/-- The same, by what the decoders of the fields answer. -/
abbrev ListsDecoded : Members → Settings → Prop :=
  ListsBy (Decoder.bool · = .ok ·) (Style.decoder · = .ok ·) (Decoder.text · = .ok ·)
    (scopesDecoder · = .ok ·)

/-- The known names, each with the scalar that its value is, if it is one. -/
def keys : List (Text × Option Scalar) :=
  [("formatOnSave".toList, some .boolean),
   ("style".toList, some .string),
   ("checkStyleDevDependencies".toList, some .boolean),
   ("honorPackageConfig".toList, some .boolean),
   ("usePrettier".toList, some .boolean),
   ("nodePath".toList, some .string),
   ("scopes".toList, none)]

section Shapes

variable {bool bool' : Outline → Bool → Prop} {style style' : Outline → Style → Prop}
  {text text' : Outline → Text → Prop} {scopes scopes' : Outline → Scopes → Prop}
  {members : Members} {s : Settings}

theorem ListsBy.imp (h : ListsBy bool style text scopes members s)
    (hbool : ∀ {name absent v}, members.Gives name bool absent v → members.Gives name bool' absent v)
    (hstyle : ∀ {name absent v},
      members.Gives name style absent v → members.Gives name style' absent v)
    (htext : ∀ {name absent v}, members.Gives name text absent v → members.Gives name text' absent v)
    (hscopes : ∀ {name absent v},
      members.Gives name scopes absent v → members.Gives name scopes' absent v) :
    ListsBy bool' style' text' scopes' members s :=
  ⟨hbool h.formatOnSave, hstyle h.style, hbool h.checkStyleDevDependencies,
    hbool h.honorPackageConfig, hbool h.usePrettier, htext h.nodePath, hscopes h.scopes⟩

theorem listsDecoded_iff (hskim : members.skim = .ok ()) :
    ListsDecoded members s ↔ Lists members s := by
  constructor
  · intro h
    exact h.imp (Members.gives_iff Json.bool_reads hskim).mp
      (Members.gives_iff style_reads hskim).mp (Members.gives_iff Json.text_reads hskim).mp
      (Members.gives_iff scopes_reads hskim).mp
  · intro h
    exact h.imp (Members.gives_iff Json.bool_reads hskim).mpr
      (Members.gives_iff style_reads hskim).mpr (Members.gives_iff Json.text_reads hskim).mpr
      (Members.gives_iff scopes_reads hskim).mpr

end Shapes

/-- What a field of a certain name does to settings. -/
inductive Sets : Text → (Settings → Settings) → Prop where
  | formatOnSave (v : Bool) : Sets "formatOnSave".toList fun s => { s with formatOnSave := v }
  | style (v : Style) : Sets "style".toList fun s => { s with style := v }
  | checkStyleDevDependencies (v : Bool) :
      Sets "checkStyleDevDependencies".toList fun s => { s with checkStyleDevDependencies := v }
  | honorPackageConfig (v : Bool) :
      Sets "honorPackageConfig".toList fun s => { s with honorPackageConfig := v }
  | usePrettier (v : Bool) : Sets "usePrettier".toList fun s => { s with usePrettier := v }
  | nodePath (v : Text) : Sets "nodePath".toList fun s => { s with nodePath := v }
  | scopes (v : Scopes) : Sets "scopes".toList fun s => { s with scopes := v }

/-- What is true of all fields is true of each. -/
theorem forall_mem_fields {P : Json.Field Settings → Prop} :
    (∀ f ∈ fields, P f) ↔
      P (.putting "formatOnSave".toList true Decoder.bool fun v s => { s with formatOnSave := v }) ∧
      P (.putting "style".toList true Style.decoder fun v s => { s with style := v }) ∧
      P (.putting "checkStyleDevDependencies".toList true Decoder.bool fun v s =>
        { s with checkStyleDevDependencies := v }) ∧
      P (.putting "honorPackageConfig".toList true Decoder.bool fun v s =>
        { s with honorPackageConfig := v }) ∧
      P (.putting "usePrettier".toList true Decoder.bool fun v s => { s with usePrettier := v }) ∧
      P (.putting "nodePath".toList true Decoder.text fun v s => { s with nodePath := v }) ∧
      P (.putting "scopes".toList true scopesDecoder fun v s => { s with scopes := v }) := by
  rw [fields]
  simp only [List.forall_mem_cons, List.not_mem_nil, false_implies, implies_true, and_true]
  exact Iff.rfl

theorem sets_of_mem_fields : ∀ f ∈ fields, ∀ o u, f.set o = .ok u → Sets f.name u := by
  have hputting : ∀ {β : Type} {name : Text} {decoder : Decoder β} {put : β → Settings → Settings},
      (∀ v, Sets name (put v)) → ∀ o u,
        (Json.Field.putting name true decoder put).set o = .ok u → Sets name u := by
    intro β name decoder put h o u hset
    rcases Json.Field.putting_set.mp hset with ⟨v, -, rfl⟩
    exact h v
  exact forall_mem_fields.mpr ⟨hputting .formatOnSave, hputting .style,
    hputting .checkStyleDevDependencies, hputting .honorPackageConfig, hputting .usePrettier,
    hputting .nodePath, hputting .scopes⟩

/-- What a field holds in the end is given for its name, if fields of other names leave it alone. -/
theorem gives_of_record {β : Type} {name : Text} {decoder : Decoder β}
    {put : β → Settings → Settings} (get : Settings → β)
    (hfind : fields.find? (·.name = name) = some (.putting name true decoder put))
    (hget : ∀ v s, get (put v s) = v)
    (hkeeps : ∀ {name' u}, Sets name' u → name' ≠ name → ∀ s, get (u s) = get s)
    {members : Members} {s : Settings} (h : members.record fields [] {} = .ok s) :
    members.Gives name (decoder · = .ok ·) (get {}) (get s) := by
  have hstores : (Json.Field.putting name true decoder put).Stores fields decoder put get :=
    ⟨hfind, fun _ => rfl, hget, fun g hg hne o u s hset =>
      hkeeps (sets_of_mem_fields g hg o u hset) hne s⟩
  exact (Members.gives_of_record hstores h).1

theorem listsDecoded_of_record {members : Members} {s : Settings}
    (h : members.record fields [] {} = .ok s) : ListsDecoded members s := by
  refine ⟨gives_of_record formatOnSave rfl (fun _ _ => rfl) ?_ h,
    gives_of_record style rfl (fun _ _ => rfl) ?_ h,
    gives_of_record checkStyleDevDependencies rfl (fun _ _ => rfl) ?_ h,
    gives_of_record honorPackageConfig rfl (fun _ _ => rfl) ?_ h,
    gives_of_record usePrettier rfl (fun _ _ => rfl) ?_ h,
    gives_of_record nodePath rfl (fun _ _ => rfl) ?_ h,
    gives_of_record scopes rfl (fun _ _ => rfl) ?_ h⟩
  -- Fields of other names set something else.
  all_goals
    intro name' u hsets hne s
    cases hsets
    all_goals first | rfl | exact absurd rfl hne

theorem ListsDecoded.unique {members : Members} {s s' : Settings} (h : ListsDecoded members s)
    (h' : ListsDecoded members s') : s = s' := by
  cases s
  cases s'
  rw [Settings.mk.injEq]
  exact ⟨h.formatOnSave.unique h'.formatOnSave, h.style.unique h'.style,
    h.checkStyleDevDependencies.unique h'.checkStyleDevDependencies,
    h.honorPackageConfig.unique h'.honorPackageConfig, h.usePrettier.unique h'.usePrettier,
    h.nodePath.unique h'.nodePath, h.scopes.unique h'.scopes⟩

/-- Members are read as the settings that they list. -/
theorem record_fields (members : Members) (s : Settings) :
    members.record fields [] {} = .ok s ↔
      members.skim = .ok () ∧ members.Readable ∧ Lists members s := by
  have hskim : ∀ f ∈ fields, ∀ o u, f.set o = .ok u → o.skim = .ok () := by
    rw [forall_mem_fields]
    refine ⟨?_, ?_, ?_, ?_, ?_, ?_, ?_⟩
    · exact fun _ _ => Json.Field.skim_of_set_putting Json.bool_reads
    · exact fun _ _ => Json.Field.skim_of_set_putting style_reads
    · exact fun _ _ => Json.Field.skim_of_set_putting Json.bool_reads
    · exact fun _ _ => Json.Field.skim_of_set_putting Json.bool_reads
    · exact fun _ _ => Json.Field.skim_of_set_putting Json.bool_reads
    · exact fun _ _ => Json.Field.skim_of_set_putting Json.text_reads
    · exact fun _ _ => Json.Field.skim_of_set_putting scopes_reads
  have hsettable : ListsDecoded members s → ∀ f ∈ fields, members.named f.name = [] ∨
      f.name ∉ [] ∧ ∃ o u, members.named f.name = [o] ∧ f.set o = .ok u := fun h =>
    forall_mem_fields.mpr ⟨h.formatOnSave.settable, h.style.settable,
      h.checkStyleDevDependencies.settable, h.honorPackageConfig.settable, h.usePrettier.settable,
      h.nodePath.settable, h.scopes.settable⟩
  have hrecord := Members.record_eq_ok_iff {} s members (ListsDecoded members) hskim
    (fun _ => listsDecoded_of_record) hsettable ListsDecoded.unique
  exact hrecord.trans (and_congr_right fun h => and_congr_right fun _ => listsDecoded_iff h)

/-! ### Documents -/

/-- Settings are listed by what is given for the known names, whatever stands around it. -/
theorem Lists.congr {members members' : Members} {s : Settings} (h : Lists members s)
    (hnamed : ∀ key ∈ keys, members'.named key.1 = members.named key.1) : Lists members' s := by
  simp only [keys, List.forall_mem_cons, List.not_mem_nil, false_implies, implies_true,
    and_true] at hnamed
  rcases hnamed with ⟨h₁, h₂, h₃, h₄, h₅, h₆, h₇⟩
  exact ⟨h.formatOnSave.congr h₁, h.style.congr h₂, h.checkStyleDevDependencies.congr h₃,
    h.honorPackageConfig.congr h₄, h.usePrettier.congr h₅, h.nodePath.congr h₆, h.scopes.congr h₇⟩

/-- Members that list settings misuse no known name. -/
theorem Lists.not_misuses {members : Members} {s : Settings} (h : Lists members s) :
    ∀ key ∈ keys, ¬ members.Misuses key.1 key.2 := by
  have hbool : ∀ o v, Json.IsBool o v → ∀ scalar, Scalar.of? o = some scalar →
      some Scalar.boolean = some scalar := by
    rintro _ v rfl scalar hscalar
    exact hscalar
  have hstyle : ∀ o v, IsStyle o v → ∀ scalar, Scalar.of? o = some scalar →
      some Scalar.string = some scalar := by
    rintro _ _ ⟨v⟩ scalar hscalar
    · exact hscalar
    · exact nomatch hscalar
  have htext : ∀ o v, Json.IsText o v → ∀ scalar, Scalar.of? o = some scalar →
      some Scalar.string = some scalar := by
    rintro _ v rfl scalar hscalar
    exact hscalar
  have hscopes : ∀ o v, IsScopes o v → ∀ scalar, Scalar.of? o = some scalar →
      none = some scalar := by
    rintro _ v ⟨members, entries, rfl, -⟩ scalar hscalar
    exact nomatch hscalar
  simp only [keys, List.forall_mem_cons, List.not_mem_nil, false_implies, implies_true, and_true]
  exact ⟨h.formatOnSave.not_misuses hbool, h.style.not_misuses hstyle,
    h.checkStyleDevDependencies.not_misuses hbool, h.honorPackageConfig.not_misuses hbool,
    h.usePrettier.not_misuses hbool, h.nodePath.not_misuses htext, h.scopes.not_misuses hscopes⟩

/-- An object is read as the settings that it lists. -/
theorem ofText_eq_ok_iff {t : Text} {members : Members}
    (h : Document (Json.Source.ofText t) (.object members)) {s : Settings} :
    ofText t = .ok s ↔ members.Readable ∧ Lists members s := by
  have hdecode : ofText t = members.record fields [] {} := h.decode_eq
  have hskim : members.skim = .ok () := h.skim
  rw [hdecode, record_fields]
  exact ⟨fun hread => hread.2, fun hread => ⟨hskim, hread⟩⟩

/-- An object in which all names can be read is read as settings if each known name in it is given at
    most once and with a value of its type. Each setting that is listed has its value then, and each
    other setting its default, whatever the order is and whatever else there is. An object that misuses a
    known name is not read, and a file with it counts as one that lists nothing. -/
theorem ofText_merges {t : Text} {members : Members}
    (h : Document (Json.Source.ofText t) (.object members)) :
    (∀ s, ofText t = .ok s ↔ members.Readable ∧ Lists members s) ∧
    (∀ t' members', Document (Json.Source.ofText t') (.object members') → members'.Readable →
      (∀ key ∈ keys, members'.named key.1 = members.named key.1) →
      ∀ s, ofText t = .ok s → ofText t' = .ok s) ∧
    ∀ key ∈ keys, members.Misuses key.1 key.2 →
      (∃ fault, ofText t = .error fault) ∧
      ∀ tree path, FileTree.read tree path = .ok t.toUtf8 →
        Source.snapshot tree (.file path) = {} := by
  refine ⟨fun s => ofText_eq_ok_iff h, ?_, ?_⟩
  · intro t' members' h' hreadable hnamed s hs
    have hlists := ((ofText_eq_ok_iff h).mp hs).2
    exact (ofText_eq_ok_iff h').mpr ⟨hreadable, hlists.congr hnamed⟩
  · intro key hkey hmisuses
    cases hread : ofText t with
    | ok s =>
        have hlists := ((ofText_eq_ok_iff h).mp hread).2
        exact absurd hmisuses (hlists.not_misuses key hkey)
    | error fault =>
        refine ⟨⟨fault, rfl⟩, fun tree path hfile => ?_⟩
        rw [Source.snapshot, load_eq_of_read hfile, hread]
        rfl

section Examples

/-- A document that lists two settings among things that are unknown. -/
def crowded : Text :=
  "\x7b \"x\":[1e999,\x7b\"\\ud800\":null\x7d],\n\"usePrettier\" :false,\"style\":\"none\"\x7d\n".toList

/-- The members of that document. -/
def crowdedMembers : Members :=
  .member (.whole "x".toList)
      (.array (.item (.number none) (.item (.object (.member .unreadable .null .close)) .close)))
    (.member (.whole "usePrettier".toList) (.bool false)
      (.member (.whole "style".toList) (.string (.whole "none".toList)) .close))

/-- A document that lists one setting twice. -/
def twofold : Text :=
  "\x7b\"style\":\"none\",\"style\":\"none\"\x7d".toList

/-- The members of that document. -/
def twofoldMembers : Members :=
  .member (.whole "style".toList) (.string (.whole "none".toList))
    (.member (.whole "style".toList) (.string (.whole "none".toList)) .close)

/-- That document in a file. -/
def twofoldTree : FileTree :=
  CommandLine.Survey.tree [] [([], .directory), (["s".toList], .file twofold.toUtf8)]

theorem ofText_merges_crowded :
    Document (Json.Source.ofText crowded) (.object crowdedMembers) ∧
      ofText crowded = .ok { style := .unstyled, usePrettier := false } ∧
      Document (Json.Source.ofText twofold) (.object twofoldMembers) ∧
      twofoldMembers.Misuses "style".toList (some .string) ∧
      twofoldTree.read ⟨"/s".toList⟩ = .ok twofold.toUtf8 ∧
      Source.snapshot twofoldTree (.file ⟨"/s".toList⟩) = {} := by
  have hcrowded : Document (Json.Source.ofText crowded) (.object crowdedMembers) :=
    Json.document_of_outline rfl rfl rfl
  have hlists : Lists crowdedMembers { style := .unstyled, usePrettier := false } :=
    ⟨.inl ⟨rfl, rfl⟩, .inr ⟨_, rfl, .named .unstyled⟩, .inl ⟨rfl, rfl⟩, .inl ⟨rfl, rfl⟩,
      .inr ⟨_, rfl, rfl⟩, .inl ⟨rfl, rfl⟩, .inl ⟨rfl, rfl⟩⟩
  have hreadable : crowdedMembers.Readable := ⟨⟨_, rfl⟩, ⟨_, rfl⟩, ⟨_, rfl⟩, trivial⟩
  have htwofold : Document (Json.Source.ofText twofold) (.object twofoldMembers) :=
    Json.document_of_outline rfl rfl rfl
  have hmisuses : twofoldMembers.Misuses "style".toList (some .string) := .inl (by decide)
  have hread : twofoldTree.read ⟨"/s".toList⟩ = .ok twofold.toUtf8 := by decide +kernel
  have hkey : ("style".toList, some Scalar.string) ∈ keys := by decide
  exact ⟨hcrowded, ((ofText_merges hcrowded).1 _).mpr ⟨hreadable, hlists⟩, htwofold, hmisuses, hread,
    ((ofText_merges htwofold).2.2 _ hkey hmisuses).2 _ _ hread⟩

/-- A document with an unknown name that is half of a surrogate pair. -/
def halfName : Text :=
  "\x7b\"\\ud800\":1\x7d".toList

/-- A name that is no text is refused, although no setting has it. So it is not enough that members list
    settings. -/
theorem ofText_halfName :
    ofText halfName = .error .malformed ∧
      ¬ ∀ t members s, Document (Json.Source.ofText t) (.object members) → Lists members s →
        ofText t = .ok s := by
  have hdocument : Document (Json.Source.ofText halfName)
      (.object (.member .unreadable (.number (some (.integer 1))) .close)) :=
    Json.document_of_outline rfl rfl rfl
  have hlists : Lists (.member .unreadable (.number (some (.integer 1))) .close) {} :=
    ⟨.inl ⟨rfl, rfl⟩, .inl ⟨rfl, rfl⟩, .inl ⟨rfl, rfl⟩, .inl ⟨rfl, rfl⟩, .inl ⟨rfl, rfl⟩,
      .inl ⟨rfl, rfl⟩, .inl ⟨rfl, rfl⟩⟩
  have hrefused : ofText halfName = .error .malformed := rfl
  refine ⟨hrefused, fun h => ?_⟩
  exact nomatch hrefused.symm.trans (h halfName _ {} hdocument hlists)

end Examples

end Settings

end Restyle
