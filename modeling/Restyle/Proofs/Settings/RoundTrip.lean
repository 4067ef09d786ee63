import Mathlib.Data.List.Basic
import Restyle.CommandLine.Run
import Restyle.CommandLine.Survey
import Restyle.Proofs.Json.Printing
import Restyle.Proofs.Json.Shape
import Restyle.Proofs.Settings.Overrides
import Restyle.Proofs.Text.Utf8

/-!
# Printed Settings Read Back

The settings that the program prints are the settings that it reads from what it printed.

Printing and reading go by different tables. What is printed names each field once and leaves out an
override that is absent. What is read goes by the names, and a field that is not there keeps its default,
so a name that differed in the two would not be noticed as a fault. Hence the fields are followed one by
one: each is found by its name, has not come up before, and is set to what was printed.

The scopes are a map, and a map has no order. They may be printed in any, and setting the entries one
after the other sorts them. No two have the same name, so none is lost on the way, and sorting leaves no
choice of the result.

## Main definitions

* `Settings.printedWith`: What is printed below the line with the path.

## Theorems

* `Json.record_member`: A member sets the field that has its name.
* `Scopes.foldl_insert_eq`: A map comes out the same in whatever order its entries are set.
* `Settings.decoder_form`: The fields of a printed document give the settings.
* `Settings.printed_reads_back`: Printed settings are read back as they were.
-/

namespace Restyle

namespace Json

/-- A member with the name of a field that has not come up before sets that field. -/
theorem record_member {σ : Type} {fields : List (Field σ)} {seen : List Text} {name : Text}
    {field : Field σ} {update : σ → σ} {value : Outline} (r : σ) (rest : Members)
    (hfield : fields.find? (·.name = name) = some field) (hseen : name ∉ seen)
    (hset : field.set value = .ok update) :
    (Members.member (.whole name) value rest).record fields seen r =
      rest.record fields (name :: seen) (update r) := by
  rw [Members.record_whole, hfield]
  simp only [if_neg hseen, hset]
  rfl

/-- Members are gathered in their order. -/
theorem fold_memberForms {α β : Type} {decoder : Decoder α} {insert : Text → α → β → β}
    {encode : α → Json} (entries : List (Text × α))
    (h : ∀ e ∈ entries, decoder (encode e.2).form = .ok e.2) (b : β) :
    (memberForms (entries.map fun e => (e.1, encode e.2))).fold decoder insert b =
      .ok (entries.foldl (fun b e => insert e.1 e.2 b) b) := by
  induction entries generalizing b with
  | nil => rfl
  | cons e entries ih =>
      have he := h e List.mem_cons_self
      have hrest := ih fun d hd => h d (List.mem_cons_of_mem e hd)
      simp only [List.map_cons, memberForms, Members.fold, Quoted.text, bind, Except.bind, he, hrest,
        List.foldl_cons]

end Json

namespace Scopes

/-- A new entry is put among the others. -/
theorem insertEntry_perm {name : Text} {o : ScopeOverrides} {entries : List (Text × ScopeOverrides)}
    (h : ∀ e ∈ entries, e.1 ≠ name) : (insertEntry name o entries).Perm ((name, o) :: entries) := by
  induction entries with
  | nil => exact .refl _
  | cons e rest ih =>
      rw [insertEntry, if_neg (Ne.symm (h e List.mem_cons_self))]
      split
      · exact .refl _
      · have hrest := ih fun d hd => h d (List.mem_cons_of_mem e hd)
        exact (hrest.cons e).trans (.swap _ _ _)

/-- Entries with names of their own are all there, once they are set. -/
theorem foldl_insert_perm {entries : List (Text × ScopeOverrides)} (s : Scopes)
    (h : ((entries ++ s.entries).map (·.1)).Nodup) :
    (entries.foldl (fun s e => s.insert e.1 e.2) s).entries.Perm (entries ++ s.entries) := by
  induction entries generalizing s with
  | nil => exact .refl _
  | cons e entries ih =>
      have hnew : ∀ d ∈ s.entries, d.1 ≠ e.1 := by
        intro d hd heq
        have hmem : d.1 ∈ (entries ++ s.entries).map (·.1) :=
          List.mem_map_of_mem (List.mem_append_right entries hd)
        rw [heq] at hmem
        exact (List.nodup_cons.mp h).1 hmem
      have hinsert : (s.insert e.1 e.2).entries.Perm (e :: s.entries) := insertEntry_perm hnew
      have hperm : (entries ++ (s.insert e.1 e.2).entries).Perm (e :: (entries ++ s.entries)) :=
        (hinsert.append_left entries).trans List.perm_middle
      rw [List.foldl_cons]
      exact (ih _ ((hperm.map _).nodup_iff.mpr h)).trans hperm

/-- No two entries have the same name. -/
theorem nodup_names (s : Scopes) : (s.entries.map (·.1)).Nodup := by
  refine List.pairwise_map.mpr (s.sorted.imp fun {a b} hab heq => ?_)
  rw [heq, Text.precedes_irrefl] at hab
  exact Bool.false_ne_true hab

/-- Maps with the same entries are the same, since sorting leaves no choice. -/
theorem eq_of_perm {s s' : Scopes} (h : s.entries.Perm s'.entries) : s = s' := by
  have hentries : s.entries = s'.entries := by
    refine h.eq_of_pairwise (fun a b _ _ hab hba => ?_) s.sorted s'.sorted
    exact absurd (Text.precedes_trans hab hba) (by rw [Text.precedes_irrefl]; exact Bool.false_ne_true)
  obtain ⟨entries, _⟩ := s
  obtain ⟨entries', _⟩ := s'
  exact (Scopes.mk.injEq ..).mpr hentries

/-- Whatever order the entries of a map are set in, it comes out the same. -/
theorem foldl_insert_eq (s : Scopes) {entries : List (Text × ScopeOverrides)}
    (h : entries.Perm s.entries) : entries.foldl (fun s e => s.insert e.1 e.2) empty = s := by
  refine eq_of_perm ((foldl_insert_perm empty ?_).trans ?_)
  · rw [empty, List.append_nil]
    exact (h.map _).nodup_iff.mpr s.nodup_names
  · rwa [empty, List.append_nil]

end Scopes

namespace Settings

open Json

theorem overridesDecoder_form (o : ScopeOverrides) :
    overridesDecoder (overridesJson o).form = .ok o := by
  rcases o with ⟨_ | b⟩
  · rfl
  · rfl

theorem scopesDecoder_form (s : Scopes) {entries : List (Text × ScopeOverrides)}
    (h : entries.Perm s.entries) :
    scopesDecoder (Json.object (entries.map fun e => (e.1, overridesJson e.2))).form = .ok s := by
  rw [form, scopesDecoder, fold_memberForms entries fun e _ => overridesDecoder_form e.2,
    Scopes.foldl_insert_eq s h]

theorem styleDecoder_form (style : Style) : Style.decoder (Json.string style.name).form = .ok style := by
  simp [form, Style.decoder, Style.decodeName, Quoted.text, bind, Except.bind, pure, Except.pure]

/-- The fields of a document are set one after the other. -/
theorem decoder_form (s : Settings) {entries : List (Text × ScopeOverrides)}
    (h : entries.Perm s.scopes.entries) : decoder (s.toJsonWith entries).form = .ok s := by
  have hstyle := congrArg (Except.map fun (v : Style) (s : Settings) => { s with style := v })
    (styleDecoder_form s.style)
  have hscopes := congrArg (Except.map fun (v : Scopes) (s : Settings) => { s with scopes := v })
    (scopesDecoder_form s.scopes h)
  simp only [form] at hstyle hscopes
  -- Each name is looked for in the table of fields and among the names that have come up.
  simp only [toJsonWith, form, memberForms, decoder, Decoder.record]
  rw [record_member _ _ rfl (by decide) rfl, record_member _ _ rfl (by decide) hstyle,
    record_member _ _ rfl (by decide) rfl, record_member _ _ rfl (by decide) rfl,
    record_member _ _ rfl (by decide) rfl, record_member _ _ rfl (by decide) rfl,
    record_member _ _ rfl (by decide) hscopes]
  rfl

theorem numberless_toJsonWith (s : Settings) (entries : List (Text × ScopeOverrides)) :
    (s.toJsonWith entries).numberless = true := by
  have hscopes : membersNumberless (entries.map fun e => (e.1, overridesJson e.2)) = true := by
    induction entries with
    | nil => rfl
    | cons e entries ih =>
        rcases e with ⟨name, _ | b⟩
        · exact ih
        · exact ih
  simp [toJsonWith, numberless, membersNumberless, hscopes]

/-- The document of some settings, with the scopes in any order and blanks behind it, holds them. -/
theorem ofText_pretty (s : Settings) {entries : List (Text × ScopeOverrides)}
    (h : entries.Perm s.scopes.entries) {behind : Text} (hbehind : Blanks behind []) :
    ofText ((s.toJsonWith entries).pretty ++ behind) = .ok s := by
  rw [ofText, decodeText_pretty decoder (numberless_toJsonWith s entries) hbehind, decoder_form s h]

/-- What is loaded from a file is what its text holds. -/
theorem load_eq_of_read {tree : FileTree} {path : Path} {t : Text}
    (hread : tree.read path = .ok t.toUtf8) :
    Source.load tree (.file path) = (ofText t).mapError (.settingsFile path) := by
  have hcontains : tree.contains path = true := by
    rw [FileTree.read] at hread
    rw [FileTree.contains]
    cases hfind : tree.find path with
    | error cause => rw [hfind] at hread; exact nomatch hread
    | ok found => rfl
  have htext : tree.readText path = .ok t := by
    rw [FileTree.readText, hread]
    simp only [bind, Except.bind, Utf8.decode?_toUtf8]
    rfl
  simp only [Source.load, hcontains, htext, Bool.not_true, Bool.false_eq_true, if_false]

/-- What is printed below the line with the path, with the scopes in a given order. -/
def printedWith (s : Settings) (entries : List (Text × ScopeOverrides)) : Text :=
  (s.toJsonWith entries).pretty ++ ['\n']

/-- The settings that are printed below the line with their path are read back as they were, in
    whatever order the scopes are listed, and a file that holds what was printed is a file of these
    settings. -/
theorem printed_reads_back (s : Settings) :
    (∀ {m : Type → Type} [Monad m] (w : CommandLine.World m) (e : Environment) (tree : FileTree)
      (path : Path), defaultPath e = .ok path → Source.load tree (.file path) = .ok s →
      CommandLine.perform w e tree .config =
        pure (.ofResult tree
          ('#' :: ' ' :: path.text ++ '\n' :: s.printedWith s.scopes.entries) none)) ∧
    ∀ entries, entries.Perm s.scopes.entries →
      ofText (s.printedWith entries) = .ok s ∧
      ∀ tree path, FileTree.read tree path = .ok (s.printedWith entries).toUtf8 →
        Source.load tree (.file path) = .ok s ∧ Source.snapshot tree (.file path) = s := by
  refine ⟨fun w e tree path hpath hload => ?_, fun entries hperm => ?_⟩
  · simp only [CommandLine.perform, hpath, hload]
    simp [CommandLine.configListing, printedWith, document, toJson]
  · have hprinted : ofText (s.printedWith entries) = .ok s :=
      ofText_pretty s hperm (.blank (by decide) .none)
    refine ⟨hprinted, fun tree path hread => ?_⟩
    have hload : Source.load tree (.file path) = .ok s := by
      rw [load_eq_of_read hread, hprinted]
      rfl
    exact ⟨hload, by rw [Source.snapshot, hload]⟩

/-- Settings with texts that cannot be printed as they are. -/
def awkward : Settings :=
  { style := .semiStandard
    nodePath := "a\"\\\x01\x7f\né😀".toList
    scopes := (Scopes.empty.insert "\"".toList ⟨some false⟩).insert "é".toList {} }

def awkwardEntries : List (Text × ScopeOverrides) :=
  [("é".toList, {}), ("\"".toList, ⟨some false⟩)]

/-- The settings in a file, as they are printed. -/
def awkwardTree : FileTree :=
  CommandLine.Survey.tree []
    [([], .directory), (["s".toList], .file (awkward.printedWith awkwardEntries).toUtf8)]

/-- A world that refuses everything. -/
def nowhere : CommandLine.World Id :=
  ⟨fun _ => .error .permissionDenied, fun _ => .error .connectionRefused, fun _ => ()⟩

theorem printed_reads_back_awkward :
    awkwardEntries.Perm awkward.scopes.entries ∧
      ofText (awkward.printedWith awkwardEntries) = .ok awkward ∧
      awkwardTree.read ⟨"/s".toList⟩ = .ok (awkward.printedWith awkwardEntries).toUtf8 ∧
      Source.load awkwardTree (.file ⟨"/s".toList⟩) = .ok awkward ∧
      CommandLine.perform nowhere { settingsFile := some "/s".toList } awkwardTree
          .config =
        pure (.ofResult awkwardTree
          ("# /s\n".toList ++ awkward.printedWith awkward.scopes.entries) none) := by
  have hperm : awkwardEntries.Perm awkward.scopes.entries := by decide
  have hread : awkwardTree.read ⟨"/s".toList⟩ =
      .ok (awkward.printedWith awkwardEntries).toUtf8 := by decide +kernel
  rcases printed_reads_back awkward with ⟨hprint, hback⟩
  rcases hback awkwardEntries hperm with ⟨hprinted, hfile⟩
  have hload := (hfile awkwardTree _ hread).1
  exact ⟨hperm, hprinted, hread, hload,
    hprint nowhere { settingsFile := some "/s".toList } awkwardTree _ rfl hload⟩

end Settings

end Restyle
