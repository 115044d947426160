import MirAudit.Proofs.Source.Identities
import MirAudit.Proofs.Source.Phrases
import MirAudit.Proofs.Source.Regions

/-!
# Items on their own

The part of an accepted text that an item takes can be cut out. Behind the crates of the text it is
accepted, and it registers what the item registers where it stands: `items_cut_out`.
-/

namespace MirAudit

/-- Where the declaration stands. -/
def Registration.span : Registration → Span
  | .fn decl _ => decl.span
  | .struct decl => decl.span
  | .trait decl => decl.span
  | .impl decl => decl.span

namespace Source

/-! ## The crates of a text -/

/-- The line that names the local crate. -/
def crateLine (name : String) : String :=
  "crate " ++ name ++ ";\n"

/-- The line that declares an external crate without functions. -/
def externalLine (name : String) : String :=
  "extern crate " ++ name ++ " \x7b\x7d\n"

/-- The name of the local crate, if there is one, and the names of the external crates. -/
def cratesText (declared? : Option String) (externals : List String) : String :=
  String.join (declared?.toList.map crateLine ++ externals.map externalLine)

/-- Whether the item defines something, other than naming crates. -/
def ItemTree.isDefinition : ItemTree → Bool
  | .crate _ | .externCrate _ _ => false
  | .externFn _ | .struct _ _ | .trait _ _ | .impl _ _ _ | .fn _ _ _ => true

/-- The item names a crate and registers nothing. -/
structure NamesCrate (item : Spanned ItemTree) : Prop where
  no_definition : item.value.isDefinition = false
  nothing : ∀ l, registrations l item = .ok []

/-- The items name crates and register nothing. -/
structure OnlyCrates (declared? : Option String) (externals : List String)
    (items : List (Spanned ItemTree)) : Prop where
  local_name : items.filterMap crateName? = declared?.toList
  external_names : items.filterMap externalName? = externals
  names : ∀ item ∈ items, NamesCrate item

/-- Items that only name crates are built, and register nothing. -/
theorem OnlyCrates.exists_built {declared? : Option String} {externals : List String}
    {items : List (Spanned ItemTree)} (h : OnlyCrates declared? externals items) (l : Loader) :
    ∃ rss, items.mapM (registrations l) = .ok rss ∧ rss.flatten = [] := by
  refine ⟨items.map fun _ => [], Outcome.map_m_eq_ok.mpr ?_,
    List.flatten_eq_nil_iff.mpr (List.forall_mem_map.mpr fun _ _ => rfl)⟩
  exact List.forall₂_map_right_iff.mpr
    (List.forall₂_same.mpr fun named hnamed => (h.names named hnamed).nothing l)

/-- Phrases one after another, and then more of them. -/
theorem Phrase.many_append {α : Type} {p : Syntax.Part α} {s t : String} {P Q : List α → Prop}
    (hs : Phrase (.many p) s P) (ht : Phrase (.many p) t Q) (hjoint : Joint s t) :
    Phrase (.many p) (s ++ t) fun as => ∃ front back, as = front ++ back ∧ P front ∧ Q back := by
  obtain ⟨ts, front, hts, hfront, hP⟩ := hs
  obtain ⟨us, back, hus, hback, hQ⟩ := ht
  refine ⟨ts ++ us, front ++ back, ?_, Gram.derives_many_append hfront hback, front, back, rfl,
    hP, hQ⟩
  rw [String.toList_append]
  exact hts.append hus hjoint

section Lines

variable {name : String} {declared? : Option String} {externals : List String}

theorem closed_crate_line (name : String) : Closed (crateLine name) :=
  .append ⟨'\n', rfl, rfl⟩

theorem closed_external_line (name : String) : Closed (externalLine name) :=
  .append ⟨'\n', rfl, rfl⟩

theorem closed_crate_lines (declared? : Option String) (externals : List String) :
    ∀ line ∈ declared?.toList.map crateLine ++ externals.map externalLine, Closed line :=
  List.forall_mem_append.mpr ⟨List.forall_mem_map.mpr fun name _ => closed_crate_line name,
    List.forall_mem_map.mpr fun name _ => closed_external_line name⟩

theorem crate_line_phrase (h : IsName name.toList) :
    Phrase Syntax.item (crateLine name) fun item =>
      (crateName? item = some name ∧ externalName? item = none) ∧ NamesCrate item := by
  have hitem : Phrase Syntax.item ("crate" ++ " " ++ name ++ ";")
      fun item =>
      (crateName? item = some name ∧ externalName? item = none) ∧ NamesCrate item := by
    refine .spanned (P := fun tree => ∃ tok, tree = .crate tok ∧ tok.string = name)
      (.left (.map (((Phrase.name h).behind_kw .crateKw).before_mark .semicolon (by decide))
        fun tok htok => ⟨tok, rfl, htok⟩)) ?_
    rintro ⟨_, region⟩ ⟨tok, rfl, rfl⟩
    exact ⟨⟨rfl, rfl⟩, rfl, fun _ => rfl⟩
  refine (hitem.blanks_after "\n" (by decide)).of_eq ?_
  have hstart : "crate " = "crate" ++ " " := by decide
  have hstop : ";\n" = ";" ++ "\n" := by decide
  rw [crateLine, hstart, hstop]
  simp only [String.append_assoc]

theorem external_line_phrase (h : IsName name.toList) :
    Phrase Syntax.item (externalLine name) fun item =>
      (crateName? item = none ∧ externalName? item = some name) ∧ NamesCrate item := by
  have hname : Phrase (Syntax.kw .crateKw *> .token .name <* Syntax.mark .braceOpen)
      ("crate" ++ " " ++ (name ++ " ") ++ "\x7b") fun tok => tok.string = name :=
    ((Phrase.name h).blank_after.behind_kw .crateKw).before_mark .braceOpen (by decide)
  have hnone : Phrase (.many Syntax.externSignature <* Syntax.mark .braceClose) ("" ++ "\x7d")
      fun signatures => signatures = [] :=
    (Phrase.many_nil (Q := fun signatures => signatures = []) rfl).before_mark .braceClose (by decide)
  have hcrate : Phrase Syntax.externCrate ("crate" ++ " " ++ (name ++ " ") ++ "\x7b" ++ ("" ++ "\x7d"))
      fun tree => ∃ tok, tree = .externCrate tok [] ∧ tok.string = name :=
    hname.map₂ hnone (.of_opening ⟨'\x7d', rfl, rfl⟩) fun tok _ htok hnil => ⟨tok, by rw [hnil], htok⟩
  have hitem : Phrase Syntax.item ("extern" ++ " " ++
      ("crate" ++ " " ++ (name ++ " ") ++ "\x7b" ++ ("" ++ "\x7d"))) fun item =>
      (crateName? item = none ∧ externalName? item = some name) ∧ NamesCrate item := by
    refine .spanned (.right (.left (hcrate.left.behind_kw .externKw))) ?_
    rintro ⟨_, region⟩ ⟨tok, rfl, rfl⟩
    exact ⟨⟨rfl, rfl⟩, rfl, fun _ => rfl⟩
  refine (hitem.blanks_after "\n" (by decide)).of_eq ?_
  have hstart : "extern crate " = "extern" ++ " " ++ ("crate" ++ " ") := by decide
  have hstop : " \x7b\x7d\n" = " " ++ "\x7b" ++ ("" ++ "\x7d") ++ "\n" := by decide
  rw [externalLine, hstart, hstop]
  simp only [String.append_assoc]

/-- The names that items give to crates, where each item gives what belongs to its name. -/
theorem filter_map_of_names {local? external? : String → Option String} {names : List String}
    {items : List (Spanned ItemTree)}
    (h : List.Forall₂ (fun name item =>
      (crateName? item = local? name ∧ externalName? item = external? name) ∧ NamesCrate item)
      names items) :
    items.filterMap crateName? = names.filterMap local? ∧
      items.filterMap externalName? = names.filterMap external? ∧
      ∀ item ∈ items, NamesCrate item := by
  induction h with
  | nil => exact ⟨rfl, rfl, nofun⟩
  | cons hitem _ ih =>
      obtain ⟨⟨hlocal, hexternal⟩, hnames⟩ := hitem
      obtain ⟨hlocals, hexternals, hall⟩ := ih
      refine ⟨?_, ?_, List.forall_mem_cons.mpr ⟨hnames, hall⟩⟩
      · rw [List.filterMap_cons, List.filterMap_cons, hlocal, hlocals]
      · rw [List.filterMap_cons, List.filterMap_cons, hexternal, hexternals]

/-- The crates of a text are read as items that declare these crates. -/
theorem crates_phrase (hlocal : ∀ name ∈ declared?, IsName name.toList)
    (hexternals : ∀ name ∈ externals, IsName name.toList) :
    Phrase Syntax.program (cratesText declared? externals) (OnlyCrates declared? externals) := by
  have hclosed := closed_crate_lines declared? externals
  obtain ⟨hclosedLocal, hclosedExternals⟩ := List.forall_mem_append.mp hclosed
  have hfirst : Phrase (.many Syntax.item) (String.join (declared?.toList.map crateLine))
      (List.Forall₂ (fun name item =>
        (crateName? item = some name ∧ externalName? item = none) ∧ NamesCrate item)
        declared?.toList) :=
    .many (fun name hname => crate_line_phrase (hlocal name (Option.mem_toList.mp hname)))
      (Or.inr fun name _ => closed_crate_line name)
  have hrest : Phrase (.many Syntax.item) (String.join (externals.map externalLine))
      (List.Forall₂ (fun name item =>
        (crateName? item = none ∧ externalName? item = some name) ∧ NamesCrate item)
        externals) :=
    .many (fun name hname => external_line_phrase (hexternals name hname))
      (Or.inr fun name _ => closed_external_line name)
  have hall := hfirst.many_append hrest (.of_lines hclosedLocal)
  rw [cratesText, String.join_append]
  refine hall.imp ?_
  rintro _ ⟨front, back, rfl, hfront, hback⟩
  obtain ⟨hname, hnone, hcrates⟩ := filter_map_of_names hfront
  obtain ⟨hnone', hname', hcrates'⟩ := filter_map_of_names hback
  refine ⟨?_, ?_, List.forall_mem_append.mpr ⟨hcrates, hcrates'⟩⟩
  · rw [List.filterMap_append, hname, hnone', List.filterMap_some, List.filterMap_none,
      List.append_nil]
  · rw [List.filterMap_append, hnone, hname', List.filterMap_some, List.filterMap_none,
      List.nil_append]

end Lines

/-! ## Reading what was cut out -/

section Read

variable {text : List Char} {items items' : List (Spanned ItemTree)} {item : Spanned ItemTree}

/-- The part of a text that an item takes, behind a header, is read as the header and the item. -/
theorem exists_read_cut (hread : readText text = .ok items) (hitem : item ∈ items) {header : String}
    {P : List (Spanned ItemTree) → Prop} (hheader : Phrase Syntax.program header P)
    (hjoint : ∀ s, Joint header s) :
    ∃ pre cut post, Occupies text item.region pre cut post ∧
      ∃ front items', P front ∧ readText (header.toList ++ cut) = .ok items' ∧
        items'.map (Spanned.unplaced ItemTree.unplaced) =
          (front ++ [item]).map (Spanned.unplaced ItemTree.unplaced) := by
  obtain ⟨⟨pre, cut, post, hocc⟩, -⟩ := item_phrase hread hitem
  have hcut : (header ++ cutAll text [item]).toList = header.toList ++ cut := by
    rw [cutAll, List.map_singleton, hocc.cut]
    simp
  have hkept : ∀ kept ∈ [item], kept ∈ items := List.forall_mem_singleton.mpr hitem
  obtain ⟨items', _, hread', ⟨front, back, rfl, hfront, hback⟩, hsame⟩ :=
    exists_read_phrase (hheader.many_append (items_phrase hread hkept) (hjoint _))
  rw [hcut] at hread'
  refine ⟨pre, cut, post, hocc, front, items', hfront, hread', ?_⟩
  rw [hsame, List.map_append, hback, List.map_append]

/-- What does not depend on places is the same in items that agree up to places. -/
theorem filter_map_unplaced {β : Type} {part : Spanned ItemTree → Option β}
    (hpart : ∀ item, part (item.unplaced ItemTree.unplaced) = part item)
    (h : items'.map (Spanned.unplaced ItemTree.unplaced) =
      items.map (Spanned.unplaced ItemTree.unplaced)) :
    items'.filterMap part = items.filterMap part := by
  have hforget (list : List (Spanned ItemTree)) :
      (list.map (Spanned.unplaced ItemTree.unplaced)).filterMap part = list.filterMap part := by
    rw [List.filterMap_map]
    exact congrArg (List.filterMap · list) (funext hpart)
  rw [← hforget items, ← hforget items', h]

theorem is_definition_unplaced (tree : ItemTree) :
    tree.unplaced.isDefinition = tree.isDefinition := by
  cases tree <;> rfl

end Read

/-! ## The crates around an item -/

/-- Crates are registered again from the names of those that were registered. -/
theorem with_crates_rebuilt (crate : String) (names : List String) :
    let p := withCrates { crateName? := some crate } names
    withCrates { crateName? := some crate } (p.externals.map Crate.name) = p := by
  induction names using List.reverseRecOn with
  | nil => rfl
  | append_singleton names name ih =>
      have hlast (p : Program) (names : List String) (name : String) :
          withCrates p (names ++ [name]) = ((withCrates p names).addExternalCrate name).2 := by
        rw [withCrates, List.foldl_append]
        rfl
      dsimp only at ih ⊢
      rw [hlast]
      generalize withCrates { crateName? := some crate } names = p at ih ⊢
      cases hfind : p.findCrate name with
      | some known =>
          rw [Program.addExternalCrate, hfind]
          exact ih
      | none =>
          have hadded : (p.addExternalCrate name).2.externals.map Crate.name =
              p.externals.map Crate.name ++ [name] := by
            rw [Program.addExternalCrate, hfind]
            simp
          rw [hadded, hlast, ih]

section Items

variable {file file' : Option String} {text : List Char} {items items' : List (Spanned ItemTree)}
  {item : Spanned ItemTree} {p : Program}

/-- Items whose local crate is the same and that name the external crates of a program share what the
items of this program share. -/
theorem loader_of_crates (h : CratesFit items)
    (hlocal : items'.filterMap crateName? = (items.filterMap crateName?).head?.toList)
    (hexternals : items'.filterMap externalName? = (cratesOf items).externals.map Crate.name) :
    CratesFit items' ∧ cratesOf items' = cratesOf items ∧
      (loaderOf file' items').scope = (loaderOf file items).scope := by
  have hname : localCrateOf items' = localCrateOf items := by
    rw [localCrateOf, hlocal, localCrateOf]
    cases (items.filterMap crateName?).head? <;> rfl
  have hcrates : cratesOf items' = cratesOf items := by
    rw [cratesOf, hexternals, hname]
    exact with_crates_rebuilt _ _
  refine ⟨⟨?_, ?_⟩, hcrates, ?_⟩
  · rw [hlocal]
    cases (items.filterMap crateName?).head? <;> simp
  · rw [hexternals, hname]
    have hstart : ({ crateName? := some (localCrateOf items) } : Program).crateName? =
        some (localCrateOf items) := rfl
    rw [cratesOf, mem_with_crates hstart h.apart, not_or]
    exact ⟨List.not_mem_nil, h.apart⟩
  · rw [loaderOf, loaderOf, hcrates, hname]

/-- An item registers last what it defines, if it defines something. -/
theorem exists_definition {l : Loader} {rs : List Registration} (h : registrations l item = .ok rs)
    (hitem : item.value.isDefinition = true) :
    ∃ methods definition, rs = methods ++ [definition] ∧
      definition.span = item.region.span l.file := by
  obtain ⟨fns, entry, decl?, henlists, rfl⟩ := exists_enlists h
  cases henlists with
  | crate | externCrate _ => cases hitem
  | externFn hlower | fn hlower =>
      obtain ⟨_, _, _, -, -, rfl⟩ := FnSource.lower_eq_ok.mp hlower
      exact ⟨[], _, rfl, rfl⟩
  | struct | trait _ | impl _ _ _ => exact ⟨_, _, rfl, rfl⟩

/-- What defines something names no crate. -/
theorem names_no_crate (h : item.value.isDefinition = true) :
    crateName? item = none ∧ externalName? item = none := by
  obtain ⟨value, region⟩ := item
  cases value with
  | crate | externCrate => cases h
  | externFn | struct | trait | impl | fn => exact ⟨rfl, rfl⟩

/-- What defines nothing has no heading. -/
theorem heading_eq_none {l : Loader} (h : item.value.isDefinition = false) :
    heading? l item = none := by
  obtain ⟨value, region⟩ := item
  cases value with
  | crate | externCrate => rfl
  | externFn | struct | trait | impl | fn => cases h

/-- One item behind items that only name crates does not share its heading. -/
theorem nodup_headings {l : Loader} {front : List (Spanned ItemTree)}
    (hfront : ∀ named ∈ front, NamesCrate named)
    (hsame : items'.map (Spanned.unplaced ItemTree.unplaced) =
      (front ++ [item]).map (Spanned.unplaced ItemTree.unplaced)) :
    (items'.filterMap (heading? l)).Nodup := by
  rw [List.map_append, List.map_singleton, List.map_eq_append_iff] at hsame
  obtain ⟨front', back', rfl, hmoved, hback⟩ := hsame
  obtain ⟨item', rfl, -⟩ := List.map_eq_singleton_iff.mp hback
  have hnone : front'.filterMap (heading? l) = [] := by
    refine List.filterMap_eq_nil_iff.mpr fun named hnamed => heading_eq_none ?_
    have hmem := List.mem_map_of_mem (f := Spanned.unplaced ItemTree.unplaced) hnamed
    rw [hmoved] at hmem
    obtain ⟨known, hknown, hsame⟩ := List.mem_map.mp hmem
    have hvalue : known.value.unplaced = named.value.unplaced := congrArg Spanned.value hsame
    rw [← is_definition_unplaced, ← hvalue, is_definition_unplaced]
    exact (hfront known hknown).no_definition
  rw [List.filterMap_append, hnone, List.nil_append]
  cases hheading : heading? l item' <;> simp [hheading]

/-- Behind items that name its crates, an item of a program is accepted and registers the same. -/
theorem load_items_behind_crates (h : loadItems file items = .ok p) (hitem : item ∈ items)
    (hdefinition : item.value.isDefinition = true) {rs : List Registration}
    (hrs : registrations (loaderOf file items) item = .ok rs) {front : List (Spanned ItemTree)}
    (hfront : OnlyCrates (items.filterMap crateName?).head? (p.externals.map Crate.name) front)
    (hsame : items'.map (Spanned.unplaced ItemTree.unplaced) =
      (front ++ [item]).map (Spanned.unplaced ItemTree.unplaced)) :
    ∃ q rss, loadItems file' items' = .ok q ∧
      q.crateName? = p.crateName? ∧ q.externals = p.externals ∧
      items'.mapM (registrations (loaderOf file' items')) = .ok rss ∧
      rss.flatten.map Registration.withoutSpans = rs.map Registration.withoutSpans ∧
      (items'.filterMap (heading? (loaderOf file' items'))).Nodup := by
  obtain ⟨hcrates, _, -, hadds⟩ := load_items_eq_ok.mp h
  obtain ⟨none, hnone, hflat⟩ := hfront.exists_built (loaderOf file items)
  obtain ⟨hlocal, hexternal, hcrateOnly⟩ := hfront
  rw [hadds.extends.externals] at hexternal
  obtain ⟨hcrates', hsameCrates, hscope⟩ :
      CratesFit items' ∧ cratesOf items' = cratesOf items ∧
        (loaderOf file' items').scope = (loaderOf file items).scope := by
    obtain ⟨hnone, hnone'⟩ := names_no_crate hdefinition
    refine loader_of_crates hcrates ?_ ?_
    · rw [filter_map_unplaced crate_name_unplaced hsame, List.filterMap_append, hlocal]
      simp [hnone]
    · rw [filter_map_unplaced external_name_unplaced hsame, List.filterMap_append, hexternal]
      simp [hnone']
  have hs : (loaderOf file items).scope.Alike (loaderOf file' items').scope := by
    rw [hscope]
    exact .refl _
  have hbuilt : (front ++ [item]).mapM (registrations (loaderOf file items)) = .ok (none ++ [rs]) :=
    Outcome.map_m_append_eq_ok.mpr
      ⟨none, [rs], hnone, Outcome.map_m_eq_ok.mpr (.cons hrs .nil), rfl⟩
  obtain ⟨rss, hrss, hforget⟩ :=
    map_m_alike hsame (fun _ _ hitem _ => registrations_alike hs hitem) hbuilt
  rw [List.flatten_append, hflat, List.nil_append, List.flatten_singleton] at hforget
  -- what does not conflict among other registrations does not conflict on its own
  obtain ⟨all, hall, hconsistent, -⟩ := holds_of_load_items h
  obtain ⟨found, hmem, hfound⟩ := Outcome.exists_of_map_m hall hitem
  obtain rfl := Except.ok.inj (hrs.symm.trans hfound)
  have hown := hconsistent.of_sublist (List.sublist_flatten_of_mem hmem)
  rw [← consistent_without_spans, ← hforget, consistent_without_spans] at hown
  have hname : localCrateOf items' = localCrateOf items := congrArg Scope.localCrate hscope
  rw [← hname] at hown
  obtain ⟨q, hq⟩ := exists_load_items_iff.mpr ⟨hcrates', rss, hrss, hown⟩
  obtain ⟨-, _, -, hadds'⟩ := load_items_eq_ok.mp hq
  rw [hsameCrates] at hadds'
  exact ⟨q, rss, hq, hadds'.extends.crateName.trans hadds.extends.crateName.symm,
    hadds'.extends.externals.trans hadds.extends.externals.symm, hrss, hforget,
    nodup_headings hcrateOnly hsame⟩

end Items

/-! ## Accepted texts -/

section Texts

variable {file : Option String} {text : List Char} {p : Program}

/-- The items of an accepted text stand one behind the other. What defines something takes a part of
the text that, behind the name of the local crate if it is declared and the empty external crates, is
accepted and registers the same, up to spans. Nothing else is registered then, and each declaration
is found under its identity. -/
theorem items_cut_out (h : loadText file text = .ok p) :
    ∃ items rss, readText text = .ok items ∧ Entered (loaderOf file items) items rss p ∧
      (items.Pairwise fun item next => item.region.stop ≤ next.region.start) ∧
      ∀ item rs, (item, rs) ∈ items.zip rss → item.value.isDefinition = true →
        (∃ methods definition, rs = methods ++ [definition] ∧
          definition.span = item.region.span file) ∧
        ∃ pre cut post, Occupies text item.region pre cut post ∧ ∀ file', ∃ q items' rss',
          loadText file' ((cratesText (items.filterMap crateName?).head?
            (p.externals.map Crate.name)).toList ++ cut) = .ok q ∧
          Entered (loaderOf file' items') items' rss' q ∧
          q.crateName? = p.crateName? ∧ q.externals = p.externals ∧
          rss'.flatten.map Registration.withoutSpans = rs.map Registration.withoutSpans ∧
          ∀ r ∈ rss'.flatten, r.Found q := by
  obtain ⟨items, rss, hread, hp⟩ := entered_of_text h
  obtain ⟨_, hfound, hload⟩ := load_text_eq_ok.mp h
  obtain rfl := Except.ok.inj (hread.symm.trans hfound)
  refine ⟨items, rss, hread, hp, items_in_order hread, fun item rs hpair hdefinition => ?_⟩
  have hitem : item ∈ items := (List.of_mem_zip hpair).1
  have hrs := List.forall₂_zip (Outcome.map_m_eq_ok.mp hp.built) hpair
  refine ⟨exists_definition hrs hdefinition, ?_⟩
  have hshared : (loaderOf file items).scope.crates = _ := hp.loaded.crates
  have hlocal : ∀ name ∈ (items.filterMap crateName?).head?, IsName name.toList := by
    intro name hname
    have hcrate : IsName (localCrateOf items).toList := hp.scope.localCrate
    rwa [localCrateOf, Option.mem_def.mp hname] at hcrate
  have hexternals : ∀ name ∈ p.externals.map Crate.name, IsName name.toList := by
    intro name hname
    refine hp.scope.crates name ?_
    rw [hshared]
    exact List.mem_cons_of_mem _ hname
  obtain ⟨pre, cut, post, hocc, front, items', hfront, hread', hsame⟩ :=
    exists_read_cut hread hitem (crates_phrase hlocal hexternals)
      fun s => .of_lines (closed_crate_lines _ _)
  refine ⟨pre, cut, post, hocc, fun file' => ?_⟩
  obtain ⟨q, rss', (hq : loadItems file' items' = .ok q), hcrate, hexternal, hrss', hforget,
    hheadings⟩ := load_items_behind_crates hload hitem hdefinition hrs hfront hsame
  have hload' := load_text_eq_ok.mpr ⟨items', hread', hq⟩
  obtain ⟨_, _, hfound', hq'⟩ := entered_of_text hload'
  obtain rfl := Except.ok.inj (hread'.symm.trans hfound')
  obtain rfl := Except.ok.inj (hrss'.symm.trans hq'.built)
  refine ⟨q, items', rss', hload', hq', hcrate, hexternal, hforget, ?_⟩
  exact hq'.enters.found hq'.consistent.fns
    ((nodup_item_ids_iff hq'.scope rfl hq'.legible hq'.built hq'.consistent.fns).mpr hheadings)

end Texts

/-- A text with an external crate, a struct, and an entry point behind a comment that holds another
one. -/
def commentedText : List Char :=
  "crate demo;
extern crate dep \x7b fn get(i32) -> i32; \x7d
struct Dot; // struct\t\x7b
\tentry fn main() \x7b // größe
  let _0: (); let _1: i32;
  bb0: \x7b call _1 = fndef dep::get(const -1: i32) -> bb1; \x7d
  bb1: \x7b return; \x7d \x7d extern fn put(i32);".toList

set_option maxRecDepth 20000 in
/-- The entry point of that text is cut out, from its keyword to its last brace. -/
theorem items_cut_out_commented :
    ∃ p, ∃ item : Spanned ItemTree, ∃ pre cut post q, loadText none commentedText = .ok p ∧
      Occupies commentedText item.region pre cut post ∧
      loadText none ((cratesText (some "demo") ["dep"]).toList ++ cut) = .ok q ∧
      q.entry.map Item.defId = some ⟨"demo", "main"⟩ := by
  have htest : (readText commentedText).toOption.any (fun items =>
      (loadItems none items).toOption.any (fun p => decide
        ((items.filterMap crateName?).head? = some "demo" ∧ p.externals.map Crate.name = ["dep"])) &&
      items.any fun item => item.value.isDefinition &&
        (registrations (loaderOf none items) item).toOption.any fun rs =>
          rs.any fun r => r.entry?.any fun fn => decide (fn.defId = ⟨"demo", "main"⟩)) = true :=
    Outcome.test_of_chars (f := fun text => (readText text).toOption.any _) (by decide +kernel)
  obtain ⟨items, hread, htest⟩ := Outcome.exists_of_any htest
  obtain ⟨hload, hitems⟩ := Bool.and_eq_true_iff.mp htest
  obtain ⟨p, hload, hcrates⟩ := Outcome.exists_of_any hload
  obtain ⟨hdeclared, hexternals⟩ := of_decide_eq_true hcrates
  obtain ⟨item, hitem, htest⟩ := List.any_eq_true.mp hitems
  obtain ⟨hdefinition, hregistered⟩ := Bool.and_eq_true_iff.mp htest
  obtain ⟨rs, hrs, hentry⟩ := Outcome.exists_of_any hregistered
  obtain ⟨r, hr, hfn⟩ := List.any_eq_true.mp hentry
  obtain ⟨fn, hfn, hid⟩ := Option.any_eq_true _ _ |>.mp hfn
  have htext : loadText none commentedText = .ok p :=
    load_text_eq_ok.mpr ⟨items, hread, hload⟩
  obtain ⟨found, rss, hfound, hp, -, hcut⟩ := items_cut_out htext
  obtain rfl := Except.ok.inj (hread.symm.trans hfound)
  have hbuilt := Outcome.map_m_eq_ok.mp hp.built
  have hfirst : item ∈ (items.zip rss).map Prod.fst := by
    rwa [List.map_fst_zip hbuilt.length_eq.le]
  obtain ⟨⟨first, rs'⟩, hpair, hsame⟩ := List.mem_map.mp hfirst
  obtain rfl : first = item := hsame
  obtain rfl := Except.ok.inj (hrs.symm.trans (List.forall₂_zip hbuilt hpair))
  obtain ⟨-, pre, cut, post, hocc, hagain⟩ := hcut first rs hpair hdefinition
  obtain ⟨q, _, rss', hq, hentered, -, -, hsame, -⟩ := hagain none
  rw [hdeclared, hexternals] at hq
  refine ⟨p, first, pre, cut, post, q, htext, hocc, hq, hentered.holds.map_entry_eq_some.mpr ?_⟩
  have hmem : fn ∈ rs.filterMap Registration.entry? := List.mem_filterMap.mpr ⟨r, hr, hfn⟩
  refine ⟨fn.withoutSpan, ?_, of_decide_eq_true hid⟩
  rw [hsame, filter_map_entry_without_spans]
  exact List.mem_map_of_mem hmem

end Source

end MirAudit
