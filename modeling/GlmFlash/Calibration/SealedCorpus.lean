import GlmFlash.Calibration.SelectedWindows

/-!
# Sealing and verifying

The windows of a sealed corpus leak nothing from role to role and are balanced.
The verifier takes what the sealer wrote exactly when no role is empty, as long as
the identity of the tokenizer was written with its keys in the order of texts.
-/

namespace GlmFlash.Calibration

open GlmFlash.Library

/-! ## Windows of a corpus -/

/-- The number of full windows of some documents. -/
def fullWindows (encode : String → List ℤ) (windowTokens : ℤ) (documents : List Document) : ℕ :=
  (documents.map fun document => (encode document.text).length / windowTokens.toNat).sum

def SealedCorpus.windowsOf (corpus : SealedCorpus) (role : Role) : List Window :=
  (Dict.get? corpus.windows role).getD []

/-- A document and an offset, which say where a window is. -/
def Window.place (window : Window) : String × ℤ := (window.documentId, window.offset)

/-- The windows of the roles come from the documents that the roles were given. -/
structure LeakFree (encode : String → List ℤ) (windowTokens : ℤ)
    (split : Role → List Document) (windows : Role → List Window) : Prop where
  slices : ∀ role, ∀ window ∈ windows role, ∃ document ∈ split role,
    window.documentId = document.id ∧ window.domain = document.domain ∧
      (window.tokenIds.length : ℤ) = windowTokens ∧ ∃ index : ℕ,
        window.offset = index * windowTokens ∧
          window.tokenIds = ((encode document.text).drop window.offset.toNat).take
            windowTokens.toNat
  places : ((allRoles.flatMap windows).map Window.place).Nodup
  oneRole : ∀ left right, ∀ window ∈ windows left, ∀ other ∈ windows right,
    window.documentId = other.documentId → left = right
  documentsBalanced : ∀ left right domain,
    ((split left).filter fun document => document.domain = domain).length ≤
      ((split right).filter fun document => document.domain = domain).length + 1
  windowsBalanced : ∀ role, ∀ left right : String,
    ((windows role).filter fun window => window.domain = left).length ≤
        ((windows role).filter fun window => window.domain = right).length + 1 ∨
      ((windows role).filter fun window => window.domain = right).length =
        fullWindows encode windowTokens
          ((split role).filter fun document => document.domain = right)

section

variable {runtime : Runtime} {encode : String → List ℤ} {windowTokens limit : ℤ}
  {documents : List Document} {windows : List Window}

theorem length_flatMap_cuts (documents : List Document) :
    (documents.flatMap (cuts encode windowTokens)).length =
      fullWindows encode windowTokens documents := by
  rw [List.length_flatMap, fullWindows]
  apply congrArg List.sum
  apply List.map_congr_left
  intro document _
  rw [cuts, List.length_map, List.length_range]

theorem filter_flatMap_cuts (domain : String) :
    (documents.flatMap (cuts encode windowTokens)).filter (fun cut => cut.domain = domain) =
      (documents.filter fun document => document.domain = domain).flatMap
        (cuts encode windowTokens) := by
  induction documents with
  | nil => rfl
  | cons document documents ih =>
      have hdomain : ∀ cut ∈ cuts encode windowTokens document,
          cut.domain = document.domain := by
        intro cut hcut
        obtain ⟨index, -, rfl⟩ := List.mem_map.mp hcut
        rfl
      rw [List.flatMap_cons, List.filter_append, ih, List.filter_cons]
      by_cases hkept : document.domain = domain
      · rw [if_pos (decide_eq_true hkept), List.flatMap_cons]
        congr 1
        apply List.filter_eq_self.mpr
        intro cut hcut
        exact decide_eq_true ((hdomain cut hcut).trans hkept)
      · have hnone : (cuts encode windowTokens document).filter
            (fun cut => cut.domain = domain) = [] := by
          apply List.filter_eq_nil_iff.mpr
          intro cut hcut heq
          exact hkept ((hdomain cut hcut).symm.trans (of_decide_eq_true heq))
        rw [if_neg fun h => hkept (of_decide_eq_true h), hnone, List.nil_append]

/-- No two full windows of different documents, or of one, are at one place. -/
theorem nodup_places (hids : (documents.map Document.id).Nodup) :
    ((documents.flatMap (cuts encode windowTokens)).map fun cut =>
      (cut.documentId, cut.offset)).Nodup := by
  rw [List.map_flatMap, List.nodup_flatMap]
  constructor
  · intro document _
    rw [cuts, List.map_map]
    by_cases hzero : windowTokens.toNat = 0
    · rw [hzero, Nat.div_zero]
      exact List.nodup_nil
    · apply List.Nodup.map _ List.nodup_range
      intro left right heq
      have hoffset : (left : ℤ) * windowTokens = right * windowTokens :=
        congrArg Prod.snd heq
      have hne : windowTokens ≠ 0 := by omega
      exact Int.ofNat_inj.mp (Int.eq_of_mul_eq_mul_right hne hoffset)
  · rw [List.Nodup, List.pairwise_map] at hids
    apply hids.imp
    intro left right hne place hleft hright
    obtain ⟨cut, hcut, rfl⟩ := List.mem_map.mp hleft
    obtain ⟨other, hother, hplace⟩ := List.mem_map.mp hright
    obtain ⟨index, -, rfl⟩ := List.mem_map.mp hcut
    obtain ⟨index', -, rfl⟩ := List.mem_map.mp hother
    exact hne (congrArg Prod.fst hplace).symm

theorem Selected.cut_mem {items : List Cut} (hselected : Selected runtime items limit windows)
    {window : Window} (hmem : window ∈ windows) : window.cut ∈ items :=
  hselected.subperm.subset (List.mem_map_of_mem hmem)

/-- A selected window is a full slice of a document. -/
theorem Selected.slice
    (hselected : Selected runtime (documents.flatMap (cuts encode windowTokens)) limit windows)
    {window : Window} (hmem : window ∈ windows) : ∃ document ∈ documents,
      window.documentId = document.id ∧ window.domain = document.domain ∧
        (window.tokenIds.length : ℤ) = windowTokens ∧ ∃ index : ℕ,
          window.offset = index * windowTokens ∧
            window.tokenIds = ((encode document.text).drop window.offset.toNat).take
              windowTokens.toNat := by
  obtain ⟨document, hdocument, hcut⟩ := List.mem_flatMap.mp (hselected.cut_mem hmem)
  obtain ⟨index, hindex, heq⟩ := List.mem_map.mp hcut
  have hlength := length_cutAt document (List.mem_range.mp hindex)
  rw [heq] at hlength
  have hoffset : (index : ℤ) * windowTokens = window.offset := congrArg Cut.offset heq
  have htokens : ((encode document.text).drop ((index : ℤ) * windowTokens).toNat).take
      windowTokens.toNat = window.tokenIds := congrArg Cut.tokenIds heq
  refine ⟨document, hdocument, (congrArg Cut.documentId heq).symm,
    (congrArg Cut.domain heq).symm, hlength, index, hoffset.symm, ?_⟩
  rw [← hoffset]
  exact htokens.symm

theorem Selected.nodup_places
    (hselected : Selected runtime (documents.flatMap (cuts encode windowTokens)) limit windows)
    (hids : (documents.map Document.id).Nodup) : (windows.map Window.place).Nodup := by
  obtain ⟨list, hperm, hsublist⟩ := hselected.subperm
  have hplaces := hperm.map fun cut => (cut.documentId, cut.offset)
  rw [List.map_map] at hplaces
  exact hplaces.nodup_iff.mp ((Calibration.nodup_places hids).sublist (hsublist.map _))

/-- The windows of the roles are as they should be when each role's are selected
from the documents that it was given. -/
theorem leakFree_of_selected {seed : ℤ} (hids : (documents.map Document.id).Nodup)
    {windows : Role → List Window} {limits : Role → ℤ}
    (hselected : ∀ role, Selected runtime
      ((documentSplit runtime documents seed role).flatMap (cuts encode windowTokens))
      (limits role) (windows role)) :
    LeakFree encode windowTokens (documentSplit runtime documents seed) windows := by
  have hnodup : documents.Nodup := List.Nodup.of_map Document.id hids
  have hsplit : ∀ role, ((documentSplit runtime documents seed role).map Document.id).Nodup := by
    intro role
    apply List.Nodup.map_on _ (nodup_documentSplit hnodup role)
    intro left hleft right hright heq
    exact List.inj_on_of_nodup_map hids (documentSplit_subset hleft)
      (documentSplit_subset hright) heq
  have honeRole : ∀ left right, ∀ window ∈ windows left, ∀ other ∈ windows right,
      window.documentId = other.documentId → left = right := by
    intro left right window hwindow other hother hsame
    obtain ⟨document, hdocument, hid, -⟩ := (hselected left).slice hwindow
    obtain ⟨document', hdocument', hid', -⟩ := (hselected right).slice hother
    have heq : document = document' := List.inj_on_of_nodup_map hids
      (documentSplit_subset hdocument) (documentSplit_subset hdocument')
      (hid.symm.trans (hsame.trans hid'))
    exact documentSplit_role hnodup hdocument (heq ▸ hdocument')
  refine ⟨fun role window hmem => (hselected role).slice hmem, ?_, honeRole,
    documentSplit_balanced runtime documents seed, ?_⟩
  · rw [List.map_flatMap, List.nodup_flatMap]
    constructor
    · exact fun role _ => (hselected role).nodup_places (hsplit role)
    · have hroles : allRoles.Nodup := by decide
      apply hroles.imp
      intro left right hne place hleft hright
      obtain ⟨window, hwindow, rfl⟩ := List.mem_map.mp hleft
      obtain ⟨other, hother, hplace⟩ := List.mem_map.mp hright
      exact hne (honeRole left right window hwindow other hother
        (congrArg Prod.fst hplace).symm)
  · intro role left right
    have hbalanced := (hselected role).balanced left right
    rw [filter_flatMap_cuts, length_flatMap_cuts] at hbalanced
    exact hbalanced

end

/-! ## Sets of texts -/

section

variable {runtime : Runtime}

theorem any_map_text (item : String) (items : List String) :
    (items.map Json.text).any (runtime.same (.text item)) = items.any (sameString item) := by
  rw [List.any_map]
  congr 1
  funext other
  exact runtime.same_text item other

theorem distinct_map_text (items : List String) :
    distinct runtime.same (items.map .text) = (distinct sameString items).map .text := by
  have hfold : ∀ (items found : List String),
      (items.map Json.text).foldl (fun found item =>
        if found.any (runtime.same item) then found else found ++ [item])
          (found.map Json.text) =
      (items.foldl (fun found item =>
        if found.any (sameString item) then found else found ++ [item]) found).map .text := by
    intro items
    induction items with
    | nil => exact fun _ => rfl
    | cons item items ih =>
        intro found
        rw [List.map_cons, List.foldl_cons, List.foldl_cons, any_map_text, ← ih]
        congr 1
        split
        · rfl
        · rw [List.map_append]
          rfl
  exact hfold items []

theorem anyOverlap_map_text (sets : List (List String)) :
    anyOverlap runtime.same (sets.map (List.map .text)) = anyOverlap sameString sets := by
  induction sets with
  | nil => rfl
  | cons first rest ih =>
      rw [List.map_cons, anyOverlap, anyOverlap, ih, List.any_map]
      congr 2
      funext other
      rw [Function.comp_apply, List.any_map]
      congr 1
      funext item
      exact any_map_text item other

theorem isSubset_map_text (left right : List String) :
    isSubset runtime.same (left.map .text) (right.map .text) =
      left.all fun item => right.any (sameString item) := by
  rw [isSubset, List.all_map]
  congr 1
  funext item
  exact any_map_text item right

theorem isSubset_text {left right : List String} (hsubset : left ⊆ right) :
    isSubset runtime.same (left.map .text) (right.map .text) = true := by
  rw [isSubset_map_text, List.all_eq_true]
  intro item hitem
  exact List.any_eq_true.mpr ⟨item, hsubset hitem, decide_eq_true rfl⟩

theorem mapM_map_ok {A B D : Type} {function : B → Except Failure D} {source : A → B}
    {target : A → D} {items : List A}
    (hall : ∀ item ∈ items, function (source item) = .ok (target item)) :
    (items.map source).mapM function = .ok (items.map target) := by
  induction items with
  | nil => rfl
  | cons item items ih =>
      rw [List.map_cons, List.mapM_cons, hall item List.mem_cons_self]
      change (List.mapM function (items.map source) >>= fun rest =>
        pure (target item :: rest)) = _
      rw [ih fun other hmem => hall other (List.mem_cons_of_mem item hmem)]
      rfl

end

/-! ## Reading an artifact back -/

variable {runtime : Runtime}

/-- A window that was read back. -/
def Window.read (window : Window) : Json := .object (sortedFields window.fields)

theorem nodup_fields (window : Window) : (Dict.keys window.fields).Nodup := by
  simp [Dict.keys, Window.fields]

theorem sortKeys_windows (windows : List Window) :
    (Json.array (windows.map Window.json)).sortKeys = .array (windows.map Window.read) := by
  rw [Json.sortKeys, sortItems_eq_map, List.map_map]
  rfl

theorem item_read {window : Window} {key : String} {value : Json}
    (hget : window.fields.get? key = some value) :
    item window.read key = .ok value.sortKeys := by
  rw [Window.read, item, get?_sortedFields (nodup_fields window), hget]
  rfl

theorem item_read_text {window : Window} {key text : String}
    (hget : window.fields.get? key = some (.text text)) :
    item window.read key = .ok (.text text) :=
  item_read hget

theorem sortKeys_ints (tokens : List ℤ) :
    (Json.array (tokens.map .int)).sortKeys = .array (tokens.map .int) := by
  rw [Json.sortKeys, sortItems_eq_map, List.map_map]
  rfl

/-- The verifier gets the digest of the tokens that the sealer had. -/
theorem verifyWindow_read {role : Role} {window : Window}
    (hhashed : tokenSha256 runtime window.tokenIds = .ok window.tokenSha256) :
    verifyWindow runtime role window.read = .ok (.text window.documentId) := by
  have htokens : item window.read "token_ids" = .ok (.array (window.tokenIds.map .int)) :=
    (item_read rfl).trans (congrArg Except.ok (sortKeys_ints window.tokenIds))
  have hints : (window.tokenIds.map Json.int).mapM (intValue runtime) =
      .ok window.tokenIds := by
    have hall : ∀ token ∈ window.tokenIds, intValue runtime (.int token) = .ok (id token) :=
      fun _ _ => rfl
    rw [mapM_map_ok hall, List.map_id]
  have hfound : (sortedFields window.fields).get? "token_sha256" =
      some (.text window.tokenSha256) :=
    get?_sortedFields (nodup_fields window) "token_sha256"
  simp only [verifyWindow, bind_eq_ok, require_eq_ok]
  refine ⟨_, htokens, _, rfl, window.tokenIds, hints, window.tokenSha256, hhashed, (), ?_,
    .text window.documentId, item_read_text rfl, rfl⟩
  rw [Window.read]
  dsimp only
  rw [hfound, Option.getD_some, runtime.same_text]
  exact decide_eq_true rfl

theorem nodup_roleNames : (allRoles.map Role.name).Nodup := by
  decide

section

variable {corpus : SealedCorpus} (hroles : corpus.windows.map Prod.fst = allRoles)

include hroles

theorem get?_windowsOf (role : Role) :
    Dict.get? corpus.windows role = some (corpus.windowsOf role) := by
  have hkey : role ∈ Dict.keys corpus.windows := by
    rw [Dict.keys, hroles]
    cases role <;> decide
  obtain ⟨windows, hget⟩ := Dict.mem_keys_iff.mp hkey
  rw [SealedCorpus.windowsOf, hget]
  rfl

theorem mem_windowsOf (role : Role) : (role, corpus.windowsOf role) ∈ corpus.windows :=
  Dict.mem_of_get? (get?_windowsOf hroles role)

theorem windows_eq :
    corpus.windows = allRoles.map fun role => (role, corpus.windowsOf role) := by
  have hnodup : (Dict.keys corpus.windows).Nodup := by
    rw [Dict.keys, hroles]
    decide
  rw [← hroles, List.map_map]
  apply (List.map_id _).symm.trans
  apply List.map_congr_left
  intro entry hentry
  have hget := Dict.get?_of_mem hnodup hentry
  rw [get?_windowsOf hroles] at hget
  exact Prod.ext rfl (Option.some.inj hget).symm

theorem keys_roleWindows : Dict.keys corpus.roleWindows = allRoles.map Role.name := by
  rw [Dict.keys, SealedCorpus.roleWindows, List.map_map, ← hroles, List.map_map]
  rfl

theorem keys_roleCounts : Dict.keys corpus.roleCounts = allRoles.map Role.name := by
  rw [Dict.keys, SealedCorpus.roleCounts, List.map_map, ← hroles, List.map_map]
  rfl

theorem item_windows (role : Role) :
    item (.object (sortedFields corpus.roleWindows)) role.name =
      .ok (.array ((corpus.windowsOf role).map Window.read)) := by
  have hkeys : (Dict.keys corpus.roleWindows).Nodup :=
    keys_roleWindows hroles ▸ nodup_roleNames
  have hget : corpus.roleWindows.get? role.name =
      some (.array ((corpus.windowsOf role).map Window.json)) :=
    Dict.get?_of_mem hkeys (List.mem_map.mpr ⟨_, mem_windowsOf hroles role, rfl⟩)
  rw [item, get?_sortedFields hkeys, hget, Option.map_some, sortKeys_windows]

theorem get?_counts (role : Role) :
    (sortedFields corpus.roleCounts).get? role.name =
      some (.int (corpus.windowsOf role).length) := by
  have hkeys : (Dict.keys corpus.roleCounts).Nodup :=
    keys_roleCounts hroles ▸ nodup_roleNames
  have hget : corpus.roleCounts.get? role.name =
      some (.int (corpus.windowsOf role).length) :=
    Dict.get?_of_mem hkeys (List.mem_map.mpr ⟨_, mem_windowsOf hroles role, rfl⟩)
  rw [get?_sortedFields hkeys, hget]
  rfl

/-- What the verifier says of a role whose tokens have their digests. -/
theorem verifyRole_read {minimumDomains : ℤ} {role : Role}
    (hhashed : ∀ window ∈ corpus.windowsOf role,
      tokenSha256 runtime window.tokenIds = .ok window.tokenSha256) {documents : List Json} :
    verifyRole runtime minimumDomains (.object (sortedFields corpus.roleWindows))
        (.object (sortedFields corpus.roleCounts)) role = .ok documents ↔
      corpus.windowsOf role ≠ [] ∧
      minimumDomains ≤ (distinct sameString
        ((corpus.windowsOf role).map Window.domain)).length ∧
      (distinct sameString ((corpus.windowsOf role).map Window.documentId)).map .text =
        documents := by
  have hdomains : ((corpus.windowsOf role).map Window.read).mapM
      (fun row => item row "domain" >>= element) =
        .ok (((corpus.windowsOf role).map Window.domain).map .text) := by
    rw [List.map_map]
    apply mapM_map_ok
    intro window _
    have hdomain : item window.read "domain" = .ok (.text window.domain) :=
      item_read_text rfl
    rw [hdomain]
    rfl
  have hdocuments : ((corpus.windowsOf role).map Window.read).mapM
      (verifyWindow runtime role) =
        .ok (((corpus.windowsOf role).map Window.documentId).map .text) := by
    rw [List.map_map]
    exact mapM_map_ok fun window hmem => verifyWindow_read (hhashed window hmem)
  simp only [verifyRole, item_windows hroles, get?_counts hroles, bind_eq_ok, require_eq_ok,
    pure_eq_ok]
  constructor
  · rintro ⟨_, hrows, _, hcount, _, hint, _, hiterate, -, hnonempty, _, hdom, -, hminimum, _,
      hdoc, hresult⟩
    cases hrows
    cases hcount
    cases hint
    cases hiterate
    rw [hdomains] at hdom
    cases hdom
    rw [hdocuments] at hdoc
    cases hdoc
    rw [distinct_map_text, List.length_map] at hminimum
    rw [distinct_map_text] at hresult
    rw [List.length_map] at hnonempty
    exact ⟨fun hempty => hnonempty.2 (congrArg List.length hempty), hminimum, hresult⟩
  · rintro ⟨hnonempty, hminimum, hresult⟩
    refine ⟨_, rfl, _, rfl, _, rfl, _, rfl, (), ⟨?_, ?_⟩, _, hdomains, (), ?_, _, hdocuments,
      ?_⟩
    · rw [List.length_map]
    · rw [List.length_map]
      exact fun hzero => hnonempty (List.length_eq_zero_iff.mp hzero)
    · rw [distinct_map_text, List.length_map]
      exact hminimum
    · rw [distinct_map_text]
      exact hresult

end

/-! ## The verifier's answer -/

/-- The body when `tokenizer` is what is written of the tokenizer. -/
def SealedCorpus.jsonBody (corpus : SealedCorpus) (tokenizer : Json) : Dict String Json := [
  ("schema", .text sealedSchema), ("seed", .int corpus.seed),
  ("window_tokens", .int corpus.windowTokens),
  ("minimum_domains", .int corpus.minimumDomains), ("tokenizer", tokenizer),
  ("source", .object [("path", .text corpus.sourcePath), ("sha256", .text corpus.sourceSha256)]),
  ("role_counts", .object corpus.roleCounts), ("windows", .object corpus.roleWindows)]

def SealedCorpus.jsonArtifact (corpus : SealedCorpus) (tokenizer : Json)
    (sealSha256 : String) : Dict String Json :=
  corpus.jsonBody tokenizer ++ [("seal_sha256", .text sealSha256)]

theorem canonicalJson_ofJson (value : Json) :
    canonicalJson runtime (.ofJson value) = runtime.dump value.sortKeys := by
  rw [canonicalJson, PyValue.encode_ofJson]
  rfl

/-- What is written is read back as it was written. -/
theorem loads_canonicalJson {value : PyValue} {written : Json} {bytes : Bytes}
    (hvalid : value.Valid) (hencode : value.encode = .ok written)
    (hunique : written.uniqueKeys = true)
    (hwrite : canonicalJson runtime value = .ok bytes) :
    runtime.loads bytes = some written := by
  rw [canonicalJson, hencode] at hwrite
  exact runtime.loads_dump written bytes (hvalid.written hencode) hunique hwrite

/-- The identity is written with its keys in the order of texts.  Keys that are
numbers may come in another order. -/
def PyDict.InTextOrder (dict : PyDict) (written : Json) : Prop :=
  (PyValue.object dict.fields).encode = .ok written ∧ written.Ordered

/-- A dictionary of which all keys are texts. -/
def PyDict.texts (fields : Dict String Json) (hwritten : (Json.object fields).Written)
    (hunique : (Json.object fields).uniqueKeys = true) : PyDict :=
  ⟨ofFields fields, PyValue.valid_ofJson hwritten hunique⟩

theorem inTextOrder_texts {fields : Dict String Json}
    (hwritten : (Json.object fields).Written)
    (hunique : (Json.object fields).uniqueKeys = true) :
    (PyDict.texts fields hwritten hunique).InTextOrder (Json.object fields).sortKeys :=
  ⟨PyValue.encode_ofJson (.object fields), Json.ordered_sortKeys hunique⟩

section

variable {corpus : SealedCorpus} {tokenizer : Json}
  (horder : corpus.tokenizer.InTextOrder tokenizer)

include horder

theorem body_forall₂ : List.Forall₂ (fun field entry =>
    field.1 = entry.1 ∧ field.2.encode = .ok entry.2.sortKeys) corpus.body
      (corpus.jsonBody tokenizer) := by
  have htokenizer : (PyValue.object corpus.tokenizer.fields).encode =
      .ok tokenizer.sortKeys := by
    rw [horder.2.sortKeys_eq, horder.1]
  have hsource : (PyValue.texts [("path", .text corpus.sourcePath),
      ("sha256", .text corpus.sourceSha256)]).encode = .ok (Json.object
        [("path", .text corpus.sourcePath), ("sha256", .text corpus.sourceSha256)]).sortKeys :=
    PyValue.encode_texts (.cons ⟨rfl, rfl⟩ (.cons ⟨rfl, rfl⟩ .nil))
  exact .cons ⟨rfl, rfl⟩ (.cons ⟨rfl, rfl⟩ (.cons ⟨rfl, rfl⟩ (.cons ⟨rfl, rfl⟩
    (.cons ⟨rfl, htokenizer⟩ (.cons ⟨rfl, hsource⟩ (.cons ⟨rfl, PyValue.encode_ofJson _⟩
      (.cons ⟨rfl, PyValue.encode_ofJson _⟩ .nil)))))))

theorem encode_artifact (sealSha256 : String) :
    (PyValue.texts (corpus.artifact sealSha256)).encode =
      .ok (Json.object (corpus.jsonArtifact tokenizer sealSha256)).sortKeys := by
  have hseal : List.Forall₂ (fun field entry =>
      field.1 = entry.1 ∧ PyValue.encode field.2 = .ok (Json.sortKeys entry.2))
        [("seal_sha256", PyValue.text sealSha256)] [("seal_sha256", Json.text sealSha256)] :=
    .cons ⟨rfl, rfl⟩ .nil
  exact PyValue.encode_texts (List.rel_append (body_forall₂ horder) hseal)

theorem canonicalJson_body : canonicalJson runtime (.texts corpus.body) =
    runtime.dump (Json.object (corpus.jsonBody tokenizer)).sortKeys := by
  rw [canonicalJson, PyValue.encode_texts (body_forall₂ horder)]
  rfl

end

section

variable {corpus : SealedCorpus} {tokenizer : Json} {sealSha256 : String}

theorem keys_artifact : Dict.keys (corpus.jsonArtifact tokenizer sealSha256) = ["schema", "seed",
    "window_tokens", "minimum_domains", "tokenizer", "source", "role_counts", "windows",
    "seal_sha256"] :=
  rfl

theorem nodup_artifact : (Dict.keys (corpus.jsonArtifact tokenizer sealSha256)).Nodup := by
  rw [keys_artifact]
  decide

theorem get?_read {key : String} {value : Json}
    (hget : (corpus.jsonArtifact tokenizer sealSha256).get? key = some value) :
    (sortedFields (corpus.jsonArtifact tokenizer sealSha256)).get? key = some value.sortKeys := by
  rw [get?_sortedFields nodup_artifact, hget, Option.map_some]

theorem sortKeys_body :
    (Json.object ((sortedFields (corpus.jsonArtifact tokenizer sealSha256)).filter
      fun field => field.1 ≠ "seal_sha256")).sortKeys =
        (Json.object (corpus.jsonBody tokenizer)).sortKeys := by
  have hunique : (Dict.keys (corpus.jsonBody tokenizer)).Nodup := by
    change ["schema", "seed", "window_tokens", "minimum_domains", "tokenizer", "source",
      "role_counts", "windows"].Nodup
    decide
  have hnew : "seal_sha256" ∉ Dict.keys (corpus.jsonBody tokenizer) := by
    change "seal_sha256" ∉ ["schema", "seed", "window_tokens", "minimum_domains", "tokenizer",
      "source", "role_counts", "windows"]
    decide
  rw [Json.sortKeys_object, Json.sortKeys_object, SealedCorpus.jsonArtifact,
    sortedFields_filter hunique hnew]

theorem textField_read {key text : String}
    (hget : (corpus.jsonArtifact tokenizer sealSha256).get? key = some (.text text)) :
    textField (sortedFields (corpus.jsonArtifact tokenizer sealSha256)) key = some text := by
  rw [textField, get?_read hget]
  rfl

/-- Only the roles can be refused of an artifact that was sealed. -/
theorem verify_read (hroles : corpus.windows.map Prod.fst = allRoles) {bodyBytes : Bytes}
    (hbody : runtime.dump (Json.object (corpus.jsonBody tokenizer)).sortKeys = .ok bodyBytes) :
    verifySealedCorpus runtime
        (sortedFields (corpus.jsonArtifact tokenizer (runtime.sha256 bodyBytes))) = .ok () ↔
      ∃ sets, allRoles.mapM (verifyRole runtime corpus.minimumDomains
          (.object (sortedFields corpus.roleWindows))
          (.object (sortedFields corpus.roleCounts))) = .ok sets ∧
        anyOverlap runtime.same sets = false := by
  generalize hseal : runtime.sha256 bodyBytes = sealSha256
  have hfound : textField (sortedFields (corpus.jsonArtifact tokenizer sealSha256)) "seal_sha256" =
      some sealSha256 :=
    textField_read rfl
  have hread : canonicalJson runtime (.ofJson (.object ((sortedFields
      (corpus.jsonArtifact tokenizer sealSha256)).filter fun field => field.1 ≠ "seal_sha256"))) =
        .ok bodyBytes := by
    rw [canonicalJson_ofJson, sortKeys_body]
    exact hbody
  have hschema : (sortedFields (corpus.jsonArtifact tokenizer sealSha256)).get? "schema" =
      some (.text sealedSchema) :=
    (get?_read rfl).trans rfl
  have hminimum : (sortedFields (corpus.jsonArtifact tokenizer sealSha256)).get? "minimum_domains" =
      some (.int corpus.minimumDomains) :=
    (get?_read rfl).trans rfl
  have hcounts : (sortedFields (corpus.jsonArtifact tokenizer sealSha256)).get? "role_counts" =
      some (.object (sortedFields corpus.roleCounts)) :=
    (get?_read rfl).trans (congrArg some (Json.sortKeys_object _))
  have hwindows : (sortedFields (corpus.jsonArtifact tokenizer sealSha256)).get? "windows" =
      some (.object (sortedFields corpus.roleWindows)) :=
    (get?_read rfl).trans (congrArg some (Json.sortKeys_object _))
  have hitem : item (.object (sortedFields (corpus.jsonArtifact tokenizer sealSha256))) "windows" =
      .ok (.object (sortedFields corpus.roleWindows)) := by
    rw [item, hwindows]
  have hnames : ((Dict.keys (sortedFields corpus.roleWindows)).map Json.text).mapM element =
      .ok ((Dict.keys (sortedFields corpus.roleWindows)).map .text) :=
    mapM_map_ok fun _ _ => rfl
  have hkeys : (Dict.keys (sortedFields corpus.roleWindows)).Perm (allRoles.map Role.name) :=
    keys_roleWindows hroles ▸ keys_sortedFields_perm corpus.roleWindows
  have hsame : runtime.same (.text sealedSchema) (.text sealedSchema) = true := by
    rw [runtime.same_text]
    exact decide_eq_true rfl
  rw [verifySealedCorpus, hfound]
  simp only [hread, hschema, hminimum, hcounts, hwindows, hitem, Option.getD_some,
    bind_eq_ok, require_eq_ok]
  constructor
  · rintro ⟨_, -, -, -, _, helement, -, -, _, -, _, -, -, -, _, hint, _, hvalue, sets, hsets,
      hoverlap⟩
    cases helement
    cases hint
    cases hvalue
    rw [if_pos hsame] at hsets
    exact ⟨sets, hsets, hoverlap⟩
  · rintro ⟨sets, hsets, hoverlap⟩
    refine ⟨_, rfl, (), ⟨?_, hseal⟩, _, rfl, (), .inr hsame, _, rfl, _, hnames, (), ?_, _, rfl,
      _, rfl, sets, ?_, hoverlap⟩
    · rw [← hseal]
      exact runtime.sha256_ne bodyBytes
    · rw [if_pos hsame, ← Function.comp_def Json.text, ← List.map_map]
      exact ⟨isSubset_text hkeys.subset, isSubset_text hkeys.symm.subset⟩
    · rw [if_pos hsame]
      exact hsets

end

end GlmFlash.Calibration
