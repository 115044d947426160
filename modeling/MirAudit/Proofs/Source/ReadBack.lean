import MirAudit.Proofs.Source.Bindings
import MirAudit.Proofs.Source.PrintedBodies
import MirAudit.Proofs.Source.Swaps

/-!
# Reading printed bodies in their text

The printed form of a body may stand in the text in the place of the body as it was written: the
text is accepted, and the function has the same body as before, see `load_text_read_back`.
-/

namespace MirAudit.Source

/-! ## Printable scopes -/

namespace Scope.Printable

variable {s : Scope}

/-- A scope stays printable when a parameter is bound to itself. -/
theorem bind (hs : s.Printable) (name : String) : (s.bind name (.param name)).Printable where
  crate_mem := hs.crate_mem
  crate_name := hs.crate_name
  bound other ty h := by
    change ((name, Ty.param name) :: s.types).lookup other = some ty at h
    rw [lookup_cons_eq] at h
    split at h
    next heq =>
      cases h
      rw [heq]
    next => exact hs.bound other ty h

/-- A scope stays printable when parameters are bound to themselves. -/
theorem bind_params (hs : s.Printable) (generics : List GenericParam) :
    (s.bindParams generics).Printable := by
  induction generics generalizing s with
  | nil => exact hs
  | cons param generics ih => exact ih (hs.bind param.name)

/-- The scope around the functions of an item is printable. -/
theorem outer (hs : s.Printable) (item : ItemTree) : (item.outer s).Printable := by
  cases item with
  | trait => exact hs.bind "Self"
  | crate | externCrate | externFn | struct | impl | fn => exact hs

end Scope.Printable

theorem is_name_crate_name {item : Spanned ItemTree}
    (h : ∀ tok, item.value = .crate tok → IsName tok.text) :
    ∀ name ∈ crateName? item, IsName name.toList := by
  intro name hname
  obtain ⟨value, region⟩ := item
  cases value with
  | crate tok =>
      obtain rfl : tok.string = name := Option.some.inj hname
      rw [Token.string, String.toList_ofList]
      exact h tok rfl
  | externCrate | externFn | struct | trait | impl | fn =>
      exact absurd hname (Option.not_mem_none name)

/-- The name that an item gives to the local crate is spelled as a name. -/
theorem Ensures.item :
    Ensures (fun _ _ => True) Syntax.item fun item =>
      ∀ name ∈ crateName? item, IsName name.toList := by
  refine .spanned (G := fun tree => ∀ tok, tree = .crate tok → IsName tok.text)
    (.choice ?crate (.choice ?foreign (.choice ?struct (.choice ?trait (.choice ?impl ?fn)))))
    fun _ => is_name_crate_name
  case crate =>
    exact .map (.seq_left (.seq_right (.kw .crateKw) .name) (.mark .semicolon)) fun _ htok _ h =>
      ItemTree.crate.inj h ▸ htok
  case foreign =>
    exact .seq_right (.kw .externKw) (.choice
      (.map₂ (.trivially _) (.trivially _) fun _ _ _ _ _ => nofun)
      (.map (.trivially _) fun _ _ _ => nofun))
  case struct => exact .map₂ (.trivially _) (.trivially _) fun _ _ _ _ _ => nofun
  case trait => exact .map₂ (.trivially _) (.trivially _) fun _ _ _ _ _ => nofun
  case impl => exact .map₃ (.trivially _) (.trivially _) (.trivially _) fun _ _ _ _ _ _ _ => nofun
  case fn => exact .map₃ (.trivially _) (.trivially _) (.trivially _) fun _ _ _ _ _ _ _ => nofun

section Items

variable {file : Option String} {items : List (Spanned ItemTree)} {p : Program} {ts : List Token}

theorem is_name_of_crate (hts : ∀ tok ∈ ts, tok.Spelled)
    (h : Gram.Derives Syntax.definition Syntax.program ts items) :
    ∀ item ∈ items, ∀ name ∈ crateName? item, IsName name.toList :=
  Ensures.derives (fun _ => .trivially _) (.many .item) hts h

theorem is_name_local_crate_of (hts : ∀ tok ∈ ts, tok.Spelled)
    (h : Gram.Derives Syntax.definition Syntax.program ts items) :
    IsName (localCrateOf items).toList := by
  unfold localCrateOf
  cases hhead : (items.filterMap crateName?).head? with
  | none => exact (by decide : IsName defaultCrate.toList)
  | some name =>
      obtain ⟨item, hitem, hname⟩ := List.mem_filterMap.mp (List.mem_of_head? hhead)
      exact is_name_of_crate hts h item hitem name hname

/-- What holds of the program of some items, for what these items share. -/
theorem loaded_loader_of (h : loadItems file items = .ok p) :
    Loaded (loaderOf file items) items p := by
  obtain ⟨l, hfile, hloaded⟩ := loaded_of_items h
  obtain ⟨hcrates, _, -, hadds⟩ := load_items_eq_ok.mp h
  have hcrate := hloaded.crateName
  rw [hadds.extends.crateName, hcrates.holds_nothing.crateName] at hcrate
  have hlocal : l.scope.localCrate = localCrateOf items := (Option.some.inj hcrate).symm
  have hloader : l = loaderOf file items := by
    obtain ⟨found, ⟨_, crates, types⟩⟩ := l
    obtain rfl : found = file := hfile
    obtain rfl : _ = localCrateOf items := hlocal
    obtain rfl : types = [] := hloaded.no_types
    have hshared : crates = localCrateOf items :: p.externals.map Crate.name := hloaded.crates
    rw [hshared, loaderOf, hadds.extends.externals]
  exact hloader ▸ hloaded

/-- The scope around a body of an accepted text is printable. -/
theorem printable_loader_of (hts : ∀ tok ∈ ts, tok.Spelled)
    (h : Gram.Derives Syntax.definition Syntax.program ts items) :
    (loaderOf file items).scope.Printable where
  crate_mem := List.mem_cons_self
  crate_name := is_name_local_crate_of hts h
  bound := nofun

end Items

/-! ## Bodies of a program -/

section Bodies

variable {l : Loader} {items : List (Spanned ItemTree)} {item : Spanned ItemTree} {p : Program}
  {path : String} {signature : SignatureTree} {tree : Spanned BodyTree}

/-- A body of a free function or of a method of a trait belongs to a declaration. -/
theorem exists_declares (h : (path, signature, tree) ∈ item.value.bodies) :
    ∃ src, Declares l item src ∧ src.defId = l.scope.localDef path ∧ src.signature = signature ∧
      src.body = some tree ∧ src.outer = item.value.outer l.scope := by
  obtain ⟨value, region⟩ := item
  cases value with
  | trait name methods =>
      obtain ⟨method, hmethod, hbody⟩ := List.mem_filterMap.mp h
      obtain ⟨_, hfound, ⟨⟩⟩ := Option.map_eq_some_iff.mp hbody
      exact ⟨_, .ofTrait hmethod, rfl, rfl, hfound, rfl⟩
  | fn entry written body =>
      obtain ⟨rfl, rfl, rfl⟩ : path = _ ∧ signature = _ ∧ tree = _ := by
        simpa [ItemTree.bodies] using h
      exact ⟨_, .free, rfl, rfl, rfl, rfl⟩
  | crate | externCrate | externFn | struct | impl => exact absurd h List.not_mem_nil

/-- A body of the program is printed as a text that is read as a body that denotes the same. -/
theorem Loaded.printed (hp : Loaded l items p) (hs : l.scope.Printable) (hitem : item ∈ items)
    (hbody : (path, signature, tree) ∈ item.value.bodies) {ts : List Token}
    (hts : ∀ tok ∈ ts, tok.Spelled) (htree : Gram.Derives Syntax.definition Syntax.body ts tree)
    (hone : ∀ traitPath ∈ tree.value.traitPaths, OneName l.scope.crates traitPath) :
    ∃ fn b, p.fnDecl (l.scope.localDef path) = some fn ∧ fn.body = some b ∧
      Phrase Syntax.body b.braces fun again =>
        SameBody (item.value.outer l.scope) signature tree again := by
  obtain ⟨src, hdeclares, hid, rfl, hsrc, houter⟩ := exists_declares (l := l) hbody
  obtain ⟨fn, hlower, hfound⟩ := hp.entered hitem hdeclares
  obtain ⟨sig, scope, lowered, hsig, hlowered, rfl⟩ := FnSource.lower_eq_ok.mp hlower
  rw [hsrc] at hlowered
  obtain ⟨b, hb, rfl⟩ := Outcome.map_eq_ok.mp hlowered
  rw [houter] at hsig
  refine ⟨_, b, hid ▸ hfound, rfl, ?_⟩
  have hscope : scope.Printable ∧ scope.crates = l.scope.crates := by
    obtain ⟨generics, _, _, _, _, rfl, -⟩ := SignatureTree.lower_eq_ok.mp hsig
    exact ⟨(hs.outer item.value).bind_params generics,
      (Scope.crates_bind_params _ _).trans (ItemTree.crates_outer _ _)⟩
  refine (bodies_reread hscope.1 hts htree (hscope.2 ▸ hone) sig b hb).imp fun again hagain => ?_
  -- the signature and the body denote only one thing
  intro sig' scope' b' hsig' hb'
  obtain ⟨rfl, rfl⟩ := Prod.mk.inj (Except.ok.inj (hsig.symm.trans hsig'))
  exact (Except.ok.inj (hb.symm.trans hb')) ▸ hagain

end Bodies

/-! ## Texts -/

/-- The tokens of a body start with a brace, and they take the region of the body. -/
theorem exists_braces {ts : List Token} {tree : Spanned BodyTree}
    (h : Gram.Derives Syntax.definition Syntax.body ts tree) :
    ∃ first inner last, ts = first :: inner ++ [last] ∧ first.terminal = .mark .braceOpen ∧
      tree.region = ⟨first.start, last.stop⟩ := by
  obtain ⟨hvalue, hregion⟩ := Gram.derives_spanned_iff.mp h
  obtain ⟨_, _, _, _, rfl, hopen, hclose, -⟩ := Gram.derives_ap_iff.mp hvalue
  obtain ⟨_, hopen, -⟩ := Gram.derives_map_iff.mp hopen
  obtain ⟨_, locals, first, rfl, hfirst, -⟩ := Gram.derives_seq_right_iff.mp hopen
  obtain ⟨blocks, _, last, rfl, -, hlast⟩ := Gram.derives_seq_left_iff.mp hclose
  obtain ⟨rfl, hterminal⟩ := Gram.derives_token_iff.mp hfirst
  obtain ⟨rfl, -⟩ := Gram.derives_token_iff.mp hlast
  have hts : [first] ++ locals ++ (blocks ++ [last]) = first :: (locals ++ blocks) ++ [last] := by
    simp
  refine ⟨first, locals ++ blocks, last, hts, hterminal, ?_⟩
  rw [hregion, hts, Region.ofTokens, List.getLast?_concat]
  rfl

/-- A body in braces starts with a brace. -/
theorem toList_braces (b : Body) : ∃ more, b.braces.toList = '\x7b' :: more := by
  rw [Body.braces, Phrase.intercalate_cons_eq, String.toList_append]
  exact ⟨_, rfl⟩

theorem closed_braces (b : Body) : Closed b.braces := by
  have hlines : b.braces = "\x7b" ++ newLines b.renderLines ++ newLines ["\x7d"] := by
    rw [Body.braces, Phrase.intercalate_cons_eq, String.append_assoc, ← new_lines_append]
    rfl
  rw [hlines]
  exact .append ⟨'\x7d', rfl, rfl⟩

section Texts

variable {file : Option String} {text : List Char} {items : List (Spanned ItemTree)}
  {item : Spanned ItemTree} {p : Program} {path : String} {signature : SignatureTree}
  {tree : Spanned BodyTree}

/-- The tokens of a text that is read are spelled. -/
theorem spelled_of_read (h : readText text = .ok items) :
    ∀ tok ∈ (Lexed.ofText text).tokens, tok.Spelled :=
  is_name_of_lexed (read_text_eq_ok.mp h).1

/-- A text that stands in the place of a body and is read as another body: the whole is read as the
items with that other body. -/
theorem exists_read_swapped (hread : readText text = .ok items) (hitem : item ∈ items)
    (hbody : (path, signature, tree) ∈ item.value.bodies) :
    ∃ ts, (∀ tok ∈ ts, tok.Spelled) ∧ Gram.Derives Syntax.definition Syntax.body ts tree ∧
      ∃ pre old post, Occupies text tree.region pre old post ∧ ∀ (b : Body) P,
        Phrase Syntax.body b.braces P → ∃ front item' back again items', P again ∧
          items = front ++ item :: back ∧
          SwapsBody signature tree again item.value item'.value ∧
          readText (pre ++ (b.braces.toList ++ post)) = .ok items' ∧
          (front ++ item' :: back).map (Spanned.unplaced ItemTree.unplaced) =
            items'.map (Spanned.unplaced ItemTree.unplaced) := by
  obtain ⟨hending, hprogram⟩ := read_text_eq_ok.mp hread
  obtain ⟨before, _, after, htokens, hhere, hswap⟩ :=
    inside_program (Reference.derives_program_iff.mp hprogram) hitem hbody
  obtain ⟨first, inner, last, rfl, hterminal, hregion⟩ := exists_braces hhere
  obtain ⟨pre, old, post, hocc⟩ := exists_occupies htokens
  have hmem (tok : Token) (htok : tok ∈ first :: inner ++ [last]) :
      tok ∈ (Lexed.ofText text).tokens := by
    rw [htokens]
    exact List.mem_append_right _ (List.mem_append_left _ htok)
  refine ⟨_, fun tok htok => spelled_of_read hread tok (hmem tok htok), hhere, pre, old, post,
    hregion ▸ hocc, ?_⟩
  rintro b P ⟨ts, again, hreads, hderives, hagain⟩
  obtain ⟨found, hfound, front, item', back, hitems, rfl, hswapped⟩ := hswap ts again hderives
  obtain ⟨more, hbraces⟩ := toList_braces b
  have hfirst : first.text = ['\x7b'] :=
    text_of_mark first (hmem first List.mem_cons_self) .braceOpen hterminal
  have hapart : Apart b.braces.toList post := by
    have hjoint : Joint b.braces (String.ofList post) := .of_closed (closed_braces b)
    rwa [Joint, String.toList_ofList] at hjoint
  have hunplaced := hreads.map_unplaced
  rw [hbraces] at hreads hapart ⊢
  obtain ⟨hend, hnew⟩ := replace_part hending htokens hocc hfirst hreads hapart
  have hplaces : (before ++ (ts ++ after)).map Token.unplaced =
      (Lexed.ofText (pre ++ ('\x7b' :: more ++ post))).tokens.map Token.unplaced := by
    rw [hnew, List.map_append, List.map_append, hunplaced]
  have hunplaces : Unplaces Syntax.program (List.map (Spanned.unplaced ItemTree.unplaced)) :=
    .many .item
  obtain ⟨items', hderived, hsame⟩ := hunplaces.derives hplaces hfound
  exact ⟨front, item', back, again, items', hagain, hitems, hswapped,
    read_text_eq_ok.mpr ⟨hend, Reference.derives_program_iff.mpr hderived⟩, hsame⟩

/-- Reading back undoes printing. In an accepted text, the body of a free function or of a method of
a trait whose segments `<Type as Trait>` name the trait by one name may be replaced by its printed
form, which is what is printed of the function from the opening brace of its header on. The text is
accepted then, and the function has the same body. -/
theorem load_text_read_back (h : loadText file text = .ok p) :
    ∃ crate items, p.crateName? = some crate ∧ readText text = .ok items ∧
      ∀ item ∈ items, ∀ path signature tree, (path, signature, tree) ∈ item.value.bodies →
        (∀ traitPath ∈ tree.value.traitPaths,
          OneName (crate :: p.externals.map Crate.name) traitPath) →
        ∃ fn b pre old post, p.fnDecl ⟨crate, path⟩ = some fn ∧ fn.body = some b ∧
          Occupies text tree.region pre old post ∧
          (∀ name, ∃ front, b.renderHeader name = front ++ "\x7b" ∧
            b.render name = front ++ b.braces) ∧
          ∀ file', ∃ q, loadText file' (pre ++ (b.braces.toList ++ post)) = .ok q ∧
            (q.fnDecl ⟨crate, path⟩).bind FnDecl.body = some b ∧ p.SameUpToSpans q := by
  obtain ⟨items, hread, hitems⟩ := load_text_eq_ok.mp h
  have hp := loaded_loader_of hitems
  have hprogram := Reference.derives_program_iff.mp (read_text_eq_ok.mp hread).2
  have hprintable : (loaderOf file items).scope.Printable :=
    printable_loader_of (spelled_of_read hread) hprogram
  refine ⟨localCrateOf items, items, hp.crateName, hread, ?_⟩
  intro item hitem path signature tree hbody hone
  obtain ⟨ts, hts, htree, pre, old, post, hocc, hswap⟩ := exists_read_swapped hread hitem hbody
  have hcrates : (loaderOf file items).scope.crates =
      localCrateOf items :: p.externals.map Crate.name := hp.crates
  rw [← hcrates] at hone
  obtain ⟨fn, b, hfound, hfn, hphrase⟩ := hp.printed hprintable hitem hbody hts htree hone
  refine ⟨fn, b, pre, old, post, hfound, hfn, hocc, fun name => b.render_eq_append_braces name,
    fun file' => ?_⟩
  obtain ⟨front, item', back, again, items', hsame, rfl, hswapped, hread', hplaces⟩ :=
    hswap b _ hphrase
  -- first the body is replaced, and then the items move to their new places
  obtain ⟨middle, hmiddle, hagree⟩ := load_items_swapped hswapped hsame hitems
  obtain ⟨q, hq, hmoved⟩ : ∃ q, loadItems file' items' = .ok q ∧ middle.SameUpToSpans q :=
    load_items_reordered (.of_eq hplaces) hmiddle
  have hall := hagree.trans hmoved
  refine ⟨q, load_text_eq_ok.mpr ⟨items', hread', hq⟩, ?_, hall⟩
  rw [hall.fn_body]
  exact Option.bind_eq_some_iff.mpr ⟨fn, hfound, hfn⟩

end Texts

/-! ## A text with every kind of drift -/

instance (crates : List String) (path : PathTree) : Decidable (OneName crates path) :=
  match path with
  | [.name name] => isTrue (.plain name)
  | [.name crate, .name name] =>
    if h : crate ∈ crates then isTrue (.inCrate crate name h)
    else isFalse fun hone => by
      cases hone with
      | inCrate _ _ hcrate => exact h hcrate
  | [] => isFalse nofun
  | .qualified _ _ :: _ => isFalse nofun
  | [.name _, .qualified _ _] => isFalse nofun
  | .name _ :: _ :: _ :: _ => isFalse nofun

/-- A body with string escapes, a tuple of one element, a method of an impl of a trait that is named
in its crate, and a call that never returns. -/
def callingText : List Char :=
  "fn main() \x7b
let _0: (); let _1: (bool,);
bb0: \x7b
_1 = aggregate (bool,) (const true: bool);
call _0 = fndef <Dot as main::Shape>::show(const \"\\n\\u0041\": str) -> !;
\x7d
\x7d".toList

set_option maxRecDepth 20000 in
/-- The function of that text is read back from its printed form. -/
theorem load_text_read_back_calling :
    ∃ p b pre post q, loadText none callingText = .ok p ∧
      (p.fnDecl ⟨"main", "main"⟩).bind FnDecl.body = some b ∧
      loadText none (pre ++ (b.braces.toList ++ post)) = .ok q ∧
      (q.fnDecl ⟨"main", "main"⟩).bind FnDecl.body = some b := by
  have htest : (readText callingText).toOption.any (fun items =>
      (loadItems none items).toOption.any (fun p => decide (p.crateName? = some "main" ∧
        p.externals = [])) &&
        items.any fun item => item.value.bodies.any fun body => decide (body.1 = "main" ∧
          ∀ traitPath ∈ body.2.2.value.traitPaths, OneName ["main"] traitPath)) = true :=
    Outcome.test_of_chars (f := fun text => (readText text).toOption.any _) (by decide +kernel)
  obtain ⟨items, hread, htest⟩ := Outcome.exists_of_any htest
  obtain ⟨hitems, hbodies⟩ := Bool.and_eq_true_iff.mp htest
  obtain ⟨p, hitems, htest⟩ := Outcome.exists_of_any hitems
  obtain ⟨hname, hexternals⟩ := of_decide_eq_true htest
  obtain ⟨item, hitem, hbody⟩ := List.any_eq_true.mp hbodies
  obtain ⟨⟨path, signature, tree⟩, hmem, hone⟩ := List.any_eq_true.mp hbody
  obtain ⟨rfl, hone⟩ := of_decide_eq_true hone
  have hload : loadText none callingText = .ok p := load_text_eq_ok.mpr ⟨items, hread, hitems⟩
  obtain ⟨crate, found, hcrate, hfound, hall⟩ := load_text_read_back hload
  obtain rfl : crate = "main" := Option.some.inj (hcrate.symm.trans hname)
  obtain rfl : found = items := Except.ok.inj (hfound.symm.trans hread)
  rw [hexternals] at hall
  obtain ⟨fn, b, pre, _, post, hfn, hb, -, -, hagain⟩ :=
    hall item hitem _ signature tree hmem hone
  obtain ⟨q, hq, hsame, -⟩ := hagain none
  exact ⟨p, b, pre, post, q, hload, Option.bind_eq_some_iff.mpr ⟨fn, hfn, hb⟩, hq, hsame⟩

end MirAudit.Source
