import MirAudit.Proofs.Source.Faults
import MirAudit.Proofs.Source.Fronts

/-!
# What a rejected text is blamed on

A text that is read as items is rejected over one of them: `BuildFails` says how. The fault is about
some tokens in a row of that item, unless a number in it is too long to be read, and the items in
front of it were all built. Read `build_fault_located` first.
-/

namespace MirAudit.Source

/-! ## The item to blame -/

section Items

variable {file : Option String} {items front back : List (Spanned ItemTree)}
  {item : Spanned ItemTree} {error : LoadError}

/-- Building some items fails at `item`, between `front` and `back`: it names the local crate a
second time, it declares an external crate under the name of the local one, or the crates fit, all
items in front are loaded, and `item` cannot be. -/
inductive BuildFails (file : Option String) (front : List (Spanned ItemTree))
    (item : Spanned ItemTree) (back : List (Spanned ItemTree)) : LoadError → Prop
  | again {name} :
      crateName? item = some name → (front.filterMap crateName?).length = 1 →
      BuildFails file front item back (LoadFault.duplicateCrate.within item.region)
  | shadowing {name} :
      name = localCrateOf (front ++ item :: back) → externalName? item = some name →
      name ∉ front.filterMap externalName? →
      BuildFails file front item back ((LoadFault.shadowedCrate name).within item.region)
  | behind {p error} :
      CratesFit (front ++ item :: back) →
      (front.forM (loadItem (loaderOf file (front ++ item :: back)))).run
        (cratesOf (front ++ item :: back)) = .ok ((), p) →
      (loadItem (loaderOf file (front ++ item :: back)) item).run p = .error error →
      BuildFails file front item back error

/-- A second declaration of the local crate is rejected there. -/
theorem declared_crate_eq_error {known : Option String}
    (h : declaredCrate known items = .error error) :
    ∃ front item back name, items = front ++ item :: back ∧ crateName? item = some name ∧
      known.toList.length + (front.filterMap crateName?).length = 1 ∧
      error = LoadFault.duplicateCrate.within item.region := by
  induction items generalizing known with
  | nil => cases h
  | cons item items ih =>
      obtain ⟨value, region⟩ := item
      cases value with
      | crate name =>
          change (if known.isSome then throw _ else declaredCrate (some name.string) items) = _ at h
          cases known with
          | some first =>
              obtain rfl := Except.error.inj h
              exact ⟨[], _, items, name.string, rfl, rfl, rfl, rfl⟩
          | none =>
              obtain ⟨front, item, back, other, rfl, hname, hcount, herror⟩ := ih h
              exact ⟨_ :: front, item, back, other, rfl, hname, by simpa [crateName?] using hcount,
                herror⟩
      | externCrate | externFn | struct | trait | impl | fn =>
          obtain ⟨front, item, back, name, rfl, hname, hcount, herror⟩ := ih h
          exact ⟨_ :: front, item, back, name, rfl, hname, hcount, herror⟩

/-- An external crate under the name of the local one is rejected where it is declared. -/
theorem run_load_crates_eq_error {crate : String} {p : Program}
    (h : (loadCrates crate items).run p = .error error) :
    ∃ front item back, items = front ++ item :: back ∧ externalName? item = some crate ∧
      crate ∉ front.filterMap externalName? ∧
      error = (LoadFault.shadowedCrate crate).within item.region := by
  induction items generalizing p with
  | nil => cases h
  | cons item items ih =>
      obtain ⟨value, region⟩ := item
      cases value with
      | externCrate name signatures =>
          change StateT.run (if name.string = crate then throw _ else _) p = _ at h
          by_cases hname : name.string = crate
          · rw [if_pos hname] at h
            obtain rfl := Except.error.inj h
            subst hname
            exact ⟨[], _, items, rfl, rfl, List.not_mem_nil, rfl⟩
          · rw [if_neg hname] at h
            rcases LoadStep.run_bind_eq_error.mp h with h | ⟨_, middle, -, h⟩
            · cases h
            · obtain ⟨front, item, back, rfl, hitem, hfront, herror⟩ := ih h
              refine ⟨_ :: front, item, back, rfl, hitem, ?_, herror⟩
              exact List.mem_cons.not.mpr (not_or.mpr ⟨fun heq => hname heq.symm, hfront⟩)
      | crate | externFn | struct | trait | impl | fn =>
          obtain ⟨front, item, back, rfl, hitem, hfront, herror⟩ := ih h
          exact ⟨_ :: front, item, back, rfl, hitem, hfront, herror⟩

/-- Items are rejected over one of them. -/
theorem exists_build_fails (h : loadItems file items = .error error) :
    ∃ front item back, items = front ++ item :: back ∧ BuildFails file front item back error := by
  unfold loadItems at h
  rcases Outcome.bind_eq_error.mp h with h | ⟨found, hfound, h⟩
  · obtain ⟨front, item, back, name, rfl, hname, hcount, rfl⟩ := declared_crate_eq_error h
    exact ⟨front, item, back, rfl, .again hname (by simpa using hcount)⟩
  obtain ⟨honce, rfl⟩ := declared_crate_eq_ok_iff.mp hfound
  rcases Outcome.bind_eq_error.mp h with h | ⟨⟨_, base⟩, hbase, h⟩
  · obtain ⟨front, item, back, rfl, hitem, hfront, rfl⟩ := run_load_crates_eq_error h
    exact ⟨front, item, back, rfl, .shadowing rfl hitem hfront⟩
  obtain ⟨hapart, rfl⟩ := run_load_crates_eq_ok.mp hbase
  rcases Outcome.bind_eq_error.mp h with h | ⟨_, -, h⟩
  · obtain ⟨front, item, back, p, rfl, hfront, hitem⟩ := LoadStep.first_of_run_for_m h
    exact ⟨front, item, back, rfl, .behind ⟨honce, hapart⟩ hfront hitem⟩
  · cases h

/-- Where the crates fit, the items are loaded one after another. -/
theorem load_items_of_crates_fit (h : CratesFit items) :
    loadItems file items =
      Prod.snd <$> (items.forM (loadItem (loaderOf file items))).run (cratesOf items) := by
  have hlocal := declared_crate_eq_ok_iff.mpr ⟨h.once, rfl⟩
  have hcrates : (loadCrates (localCrateOf items) items).run
      { crateName? := some (localCrateOf items) } = .ok ((), cratesOf items) :=
    run_load_crates_eq_ok.mpr ⟨h.apart, rfl⟩
  rw [loadItems, hlocal]
  show ((loadCrates (localCrateOf items) items).run
    { crateName? := some (localCrateOf items) } >>= _) = _
  rw [hcrates, map_eq_pure_bind]
  rfl

/-- The error is over tokens of the item. -/
theorem BuildFails.error_in (h : BuildFails file front item back error) {ts : List Token}
    (hitem : Gram.Derives Syntax.definition Syntax.item ts item) : error.In ts := by
  obtain ⟨hregion, hload⟩ := item_fails_in hitem
  cases h with
  | again | shadowing => exact .located hregion
  | behind _ _ herror => exact hload _ _ _ herror

/-- The items in front were built, and do not conflict. -/
theorem BuildFails.built (h : BuildFails file front item back error)
    (hcrates : CratesFit (front ++ item :: back)) :
    ∃ rss, front.mapM (registrations (loaderOf file (front ++ item :: back))) = .ok rss ∧
      Consistent (localCrateOf (front ++ item :: back)) rss.flatten := by
  cases h with
  | again hname hfront =>
      have honce := hcrates.once
      rw [List.filterMap_append, List.filterMap_cons_some hname, List.length_append, hfront,
        List.length_cons] at honce
      omega
  | shadowing hname hitem _ =>
      refine absurd (List.mem_filterMap.mpr ⟨item, ?_, hitem⟩) (hname ▸ hcrates.apart)
      exact List.mem_append_right _ List.mem_cons_self
  | behind _ hfront _ =>
      obtain ⟨rss, hrss, hadds⟩ := (run_for_m_eq_ok fun _ _ _ => run_load_item_eq_ok).mp hfront
      have hall := (hcrates.holds_nothing.exists_adds_all_iff (consistent_nil _)).mp ⟨_, hadds⟩
      rw [List.append_nil] at hall
      exact ⟨rss, hrss, hall⟩

/-- Where a definition is to blame, the crates fit. -/
theorem BuildFails.crates_fit (h : BuildFails file front item back error)
    (hitem : item.value.isDefinition = true) : CratesFit (front ++ item :: back) := by
  obtain ⟨hlocal, hexternal⟩ := names_no_crate hitem
  cases h with
  | again hname _ => exact absurd (hname.symm.trans hlocal) (Option.some_ne_none _)
  | shadowing _ hname _ => exact absurd (hname.symm.trans hexternal) (Option.some_ne_none _)
  | behind hcrates _ _ => exact hcrates

end Items

/-! ## The place of the fault -/

section Places

variable {text : List Char} {ts : List Token} {r : Region}

/-- Tokens in a row stand inside the region of the tokens around them. -/
theorem Region.Among.within (h : r.Among ts) (hplaced : ∀ tok ∈ ts, tok.start ≤ tok.stop)
    (horder : ts.Pairwise Token.Before) :
    (Region.ofTokens ts).start ≤ r.start ∧ r.stop ≤ (Region.ofTokens ts).stop := by
  obtain ⟨run, hrun, hne, rfl⟩ := h
  rw [Region.of_tokens_eq hne]
  exact ⟨(mem_within hplaced horder (hrun.subset (List.head_mem hne))).1,
    (mem_within hplaced horder (hrun.subset (List.getLast_mem hne))).2⟩

/-- Tokens in a row take a part of the text. -/
theorem Region.Among.occupies (h : r.Among (Lexed.ofText text).tokens) :
    ∃ pre old post, Occupies text r pre old post := by
  obtain ⟨run, ⟨before, after, htokens⟩, hne, rfl⟩ := h
  obtain ⟨first, rest, rfl⟩ := List.exists_cons_of_ne_nil hne
  rcases List.eq_nil_or_concat rest with rfl | ⟨inner, last, rfl⟩
  · rw [List.append_assoc] at htokens
    obtain ⟨post, hfront, htok, -⟩ := exists_splitting htokens.symm
    obtain ⟨pre, rfl, hstart⟩ := hfront.consumed
    obtain ⟨old, hold, hstop⟩ := htok.consumed
    refine ⟨pre, old, post, by rw [hold], hstart.symm, ?_⟩
    rw [Position.advance_all_append, ← hstart, ← hstop]
    rfl
  · rw [List.concat_eq_append, ← List.cons_append] at htokens ⊢
    rw [List.append_assoc] at htokens
    rw [Region.of_tokens_concat]
    exact exists_occupies htokens.symm

end Places

/-! ## Rejected texts -/

section Texts

variable {file : Option String} {text : List Char} {items front back : List (Spanned ItemTree)}
  {item : Spanned ItemTree} {error : LoadError}

/-- The error is over some tokens in a row of the text, and what stands among these stands inside the
item to blame. -/
theorem BuildFails.exists_tokens (h : BuildFails file front item back error)
    (hread : readText text = .ok (front ++ item :: back)) :
    ∃ ts, ts <:+: (Lexed.ofText text).tokens ∧ error.In ts ∧
      ∀ r : Region, r.Among ts → item.region.start ≤ r.start ∧ r.stop ≤ item.region.stop := by
  obtain ⟨parts, htokens, hparts⟩ := exists_item_parts hread
  obtain ⟨before, ts, after, rfl, hderives⟩ :=
    exists_part_of_mem hparts (List.mem_append_right front List.mem_cons_self)
  have hts : ts <:+: (Lexed.ofText text).tokens := by
    rw [htokens, List.flatten_append, List.flatten_cons]
    exact ⟨before.flatten, after.flatten, by simp⟩
  obtain ⟨hplaced, horder⟩ := tokens_in_order {} text
  refine ⟨ts, hts, h.error_in hderives, fun r hr => ?_⟩
  have hwithin := hr.within (fun tok htok => (hplaced tok (hts.subset htok)).2)
    (horder.sublist hts.sublist)
  rwa [← (item_region hderives).2] at hwithin

/-- If no number inside the item to blame is too long to be read, the error is a fault with a
place. -/
theorem BuildFails.exists_located (h : BuildFails file front item back error)
    (hread : readText text = .ok (front ++ item :: back))
    (hshort : ∀ tok ∈ (Lexed.ofText text).tokens, item.region.start ≤ tok.start →
      tok.stop ≤ item.region.stop → ¬ tok.Overlong) : ∃ fault, error = .located fault := by
  obtain ⟨ts, hts, herror, hwithin⟩ := h.exists_tokens hread
  cases herror with
  | located => exact ⟨_, rfl⟩
  | @overlong tok hmem hlong =>
      obtain ⟨hstart, hstop⟩ := hwithin tok.region (Token.OneOf.mk hmem rfl).among
      exact absurd hlong (hshort tok (hts.subset hmem) hstart hstop)

/-- A fault with a place stands at some tokens in a row of the text, inside the item to blame. -/
theorem BuildFails.exists_place {fault : Located}
    (h : BuildFails file front item back (.located fault))
    (hread : readText text = .ok (front ++ item :: back)) :
    ∃ r, r.Among (Lexed.ofText text).tokens ∧ (∃ pre old post, Occupies text r pre old post) ∧
      fault.span file = r.span file ∧ item.region.start ≤ r.start ∧ r.stop ≤ item.region.stop := by
  obtain ⟨ts, hts, herror, hwithin⟩ := h.exists_tokens hread
  generalize hfound : LoadError.located fault = found at herror
  cases herror with
  | overlong => cases hfound
  | @located reason r hr =>
      obtain rfl := LoadError.located.inj hfound
      exact ⟨r, hr.of_infix hts, (hr.of_infix hts).occupies, rfl, hwithin r hr⟩

/-- A text that is read and rejected is rejected over one of its items. If no number in that item is
too long to be read, the error is a fault with a place. The span of such a fault starts and stops with
some tokens in a row of the text, inside that item. The items in front are accepted with the crates
behind them if these are emptied. If the item is a definition, they are accepted with all declarations
of crates exactly if these declarations are accepted on their own. -/
theorem build_fault_located (hread : readText text = .ok items)
    (hload : loadText file text = .error error) :
    ∃ front item back, items = front ++ item :: back ∧ BuildFails file front item back error ∧
      ((∀ tok ∈ (Lexed.ofText text).tokens, item.region.start ≤ tok.start →
        tok.stop ≤ item.region.stop → ¬ tok.Overlong) → ∃ fault, error = .located fault) ∧
      (∀ fault, error = .located fault → ∃ r, r.Among (Lexed.ofText text).tokens ∧
        (∃ pre old post, Occupies text r pre old post) ∧ fault.span file = r.span file ∧
        item.region.start ≤ r.start ∧ r.stop ≤ item.region.stop) ∧
      (CratesFit items → ∀ file', ∃ p, loadText file' (cutAll text front ++
        cratesText ((item :: back).filterMap crateName?).head?
          ((item :: back).filterMap externalName?)).toList = .ok p) ∧
      (item.value.isDefinition = true → ∀ file',
        ((∃ p, loadText file' (cutAll text (front ++ crateDeclarations back)).toList = .ok p) ↔
          ∃ p, loadText file' (cutAll text (crateDeclarations items)).toList = .ok p)) := by
  rw [load_text_of_read hread] at hload
  obtain ⟨front, item, back, rfl, hfails⟩ := exists_build_fails hload
  refine ⟨front, item, back, rfl, hfails, hfails.exists_located hread, ?placed,
    fun hcrates file' => ?emptied, fun hitem file' => ?declared⟩
  case placed =>
    rintro fault rfl
    exact hfails.exists_place hread
  case emptied =>
    obtain ⟨rss, hrss, hconsistent⟩ := hfails.built hcrates
    exact front_accepted hread hcrates hrss hconsistent file'
  case declared =>
    have hcrates := hfails.crates_fit hitem
    obtain ⟨rss, hrss, hconsistent⟩ := hfails.built hcrates
    have hkept : ∀ kept ∈ front ++ crateDeclarations back, kept ∈ front ++ item :: back := by
      refine List.forall_mem_append.mpr ⟨fun kept => List.mem_append_left _, fun kept h => ?_⟩
      exact List.mem_append_right _ (List.mem_cons_of_mem _ (mem_of_crate_declaration h))
    rw [accepted_cut_iff hread hkept, accepted_cut_iff hread fun _ => mem_of_crate_declaration]
    exact front_accepted_iff hitem hcrates hrss hconsistent

end Texts

/-- An entry point, a function that uses a slot it does not declare, and an external crate. -/
def strayText : List Char :=
  "entry fn main() \x7b let _0: (); bb0: \x7b return; \x7d \x7d
fn stray() -> i32 \x7b let _0: i32; bb0: \x7b _0 = copy _1; return; \x7d \x7d
extern crate dep \x7b fn get() -> i32; \x7d
".toList

set_option maxRecDepth 20000 in
/-- The fault is at the slot, and what is in front is accepted with the external crate. -/
theorem build_fault_located_stray :
    ∃ items fault front item back, ∃ r : Region, ∃ p, readText strayText = .ok items ∧
      loadText (some "demo.mir") strayText = .error (.located fault) ∧
      items = front ++ item :: back ∧
      r.Among (Lexed.ofText strayText).tokens ∧
      fault.span (some "demo.mir") = r.span (some "demo.mir") ∧ r = ⟨⟨2, 51⟩, ⟨2, 53⟩⟩ ∧
      item.region.start ≤ r.start ∧ r.stop ≤ item.region.stop ∧ item.value.isDefinition = true ∧
      loadText none (cutAll strayText (front ++ crateDeclarations back)).toList = .ok p := by
  have htest : (readText strayText).toOption.any (fun items =>
      (match loadItems (some "demo.mir") items with
        | .error (.located fault) => decide (fault.span (some "demo.mir") =
            Region.span (some "demo.mir") ⟨⟨2, 51⟩, ⟨2, 53⟩⟩)
        | _ => false) &&
      (loadItems none (crateDeclarations items)).toOption.any (fun _ => true) &&
      items.all fun item =>
        item.value.isDefinition || decide (item.region.start.line = 3)) = true :=
    Outcome.test_of_chars (f := fun text => (readText text).toOption.any _) (by decide +kernel)
  obtain ⟨items, hread, htest⟩ := Outcome.exists_of_any htest
  simp only [Bool.and_eq_true] at htest
  obtain ⟨⟨hrejected, haccepted⟩, hdefinitions⟩ := htest
  split at hrejected
  case h_2 => cases hrejected
  case h_1 fault hload =>
      have hplace := of_decide_eq_true hrejected
      rw [← load_text_of_read hread] at hload
      obtain ⟨front, item, back, rfl, -, -, hplaced, -, hfront⟩ := build_fault_located hread hload
      obtain ⟨r, hr, -, hspan, hstart, hstop⟩ := hplaced fault rfl
      have hr' : r = ⟨⟨2, 51⟩, ⟨2, 53⟩⟩ := by
        rw [hplace] at hspan
        obtain ⟨⟨line, column⟩, ⟨endLine, endColumn⟩⟩ := r
        simp only [Region.span, Span.mk.injEq, Option.some.injEq] at hspan
        grind
      have hdefinition : item.value.isDefinition = true := by
        have hitem := List.all_eq_true.mp hdefinitions item
          (List.mem_append_right _ List.mem_cons_self)
        rcases Bool.or_eq_true_iff.mp hitem with hitem | hline
        · exact hitem
        · rw [hr', Position.le_def, of_decide_eq_true hline] at hstart
          dsimp only at hstart
          omega
      obtain ⟨q, hq, -⟩ := Outcome.exists_of_any haccepted
      obtain ⟨p, hp⟩ := (hfront hdefinition none).mpr
        ((accepted_cut_iff hread fun _ => mem_of_crate_declaration).mpr ⟨q, hq⟩)
      exact ⟨_, fault, front, item, back, r, p, hread, hload, rfl, hr, hspan, hr', hstart, hstop,
        hdefinition, hp⟩

/-- A function with a constant that is one digit too long to be read. -/
def overlongText : List Char :=
  "fn f() \x7b let _0: (); let _1: i32; bb0: \x7b _1 = const ".toList ++
    (List.replicate (Digits.numeralLimit + 1) '1' ++ ": i32; return; \x7d \x7d".toList)

set_option maxRecDepth 20000 in
/-- The text is read as items, and the constant ends their loading without a place. -/
theorem overlong_constant_unplaced :
    ∃ items, readText overlongText = .ok items ∧
      loadText none overlongText = .error (.overlong ⟨Digits.numeralLimit + 1⟩) := by
  let test (items : List (Spanned ItemTree)) : Bool :=
    match loadItems none items with
    | .error (.overlong numeral) => decide (numeral = ⟨Digits.numeralLimit + 1⟩)
    | _ => false
  have htest : (readText overlongText).toOption.any test = true := by
    refine Outcome.test_of_chars (f := fun front => (readText (front ++ _)).toOption.any test) ?_
    refine Outcome.test_of_chars
      (f := fun back => (readText (_ ++ (_ ++ back))).toOption.any test) ?_
    decide +kernel
  obtain ⟨items, hread, htest⟩ := Outcome.exists_of_any htest
  refine ⟨items, hread, ?_⟩
  rw [load_text_of_read hread]
  dsimp only [test] at htest
  split at htest
  next numeral hload => rw [hload, of_decide_eq_true htest]
  next => cases htest

/-- A function without slots, and an external crate that declares a function twice. -/
def twiceText : List Char :=
  "fn broken() \x7b \x7d
extern crate dep \x7b fn get(); fn get(); \x7d
".toList

set_option maxRecDepth 20000 in
/-- The function is to blame, and the external crate is not accepted without it either. -/
theorem declarations_rejected_twice :
    ∃ item back fault, readText twiceText = .ok (item :: back) ∧
      loadText none twiceText = .error fault ∧ BuildFails none [] item back fault ∧
      item.value.isDefinition = true ∧
      ¬ ∃ p, loadText none (cutAll twiceText ([] ++ crateDeclarations back)).toList = .ok p := by
  have htest : (readText twiceText).toOption.any (fun items => items.head?.any fun item =>
      decide ((items.filterMap crateName?).length ≤ 1 ∧
        localCrateOf items ∉ items.filterMap externalName?) &&
      ((loadItem (loaderOf none items) item).run (cratesOf items)).toOption.isNone &&
      item.value.isDefinition &&
      (loadItems none (crateDeclarations items.tail)).toOption.isNone) = true :=
    Outcome.test_of_chars (f := fun text => (readText text).toOption.any _) (by decide +kernel)
  obtain ⟨items, hread, htest⟩ := Outcome.exists_of_any htest
  obtain ⟨item, hhead, htest⟩ := Option.any_eq_true _ _ |>.mp htest
  obtain ⟨back, rfl⟩ := List.head?_eq_some_iff.mp hhead
  simp only [Bool.and_eq_true, decide_eq_true_eq] at htest
  obtain ⟨⟨⟨⟨honce, hapart⟩, hfails⟩, hdefinition⟩, hrejected⟩ := htest
  have hcrates : CratesFit (item :: back) := ⟨honce, hapart⟩
  obtain ⟨fault, hfault⟩ := Outcome.exists_of_is_none hfails
  obtain ⟨_, hrejected⟩ := Outcome.exists_of_is_none hrejected
  refine ⟨item, back, fault, hread, ?_, .behind hcrates rfl hfault, hdefinition, ?_⟩
  · have hall := LoadStep.run_bind_eq_error (f := fun _ =>
      back.forM (loadItem (loaderOf none (item :: back)))).mpr (Or.inl hfault)
    rw [load_text_of_read hread, load_items_of_crates_fit hcrates, map_eq_pure_bind]
    exact Outcome.bind_eq_error.mpr (Or.inl hall)
  · have hkept : ∀ kept ∈ crateDeclarations back, kept ∈ item :: back := fun kept h =>
      List.mem_cons_of_mem _ (mem_of_crate_declaration h)
    intro haccepted
    obtain ⟨p, hp⟩ : ∃ p, loadItems none (crateDeclarations back) = .ok p :=
      (accepted_cut_iff hread hkept).mp haccepted
    rw [List.tail_cons, hp] at hrejected
    cases hrejected

/-- Not every text that is read and rejected is rejected at a place, and not every time is what stands
in front accepted with all declarations of crates. -/
theorem build_fault_astray :
    (∃ items, readText overlongText = .ok items ∧
      loadText none overlongText = .error (.overlong ⟨Digits.numeralLimit + 1⟩)) ∧
    ∃ item back error, readText twiceText = .ok (item :: back) ∧
      loadText none twiceText = .error error ∧ BuildFails none [] item back error ∧
      item.value.isDefinition = true ∧
      ¬ ∃ p, loadText none (cutAll twiceText ([] ++ crateDeclarations back)).toList = .ok p :=
  ⟨overlong_constant_unplaced, declarations_rejected_twice⟩

end MirAudit.Source
