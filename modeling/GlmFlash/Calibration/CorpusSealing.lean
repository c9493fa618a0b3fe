import GlmFlash.Calibration.SealedCorpus

/-!
# Every corpus that is sealed

What `seal_corpus` returns leaks nothing and is balanced, and its file is taken by
`verify_sealed_corpus` exactly when every role was asked for a window.  An identity
with numbers for keys can come back in another order, and its seal is then refused.
-/

namespace GlmFlash.Calibration

open GlmFlash.Library

/-- The number of windows that a role is asked for. -/
def limitOf (roleLimits : Dict String ℤ) (role : Role) : ℤ :=
  (roleLimits.get? role.name).getD 0

/-- The file is JSON that the verifier takes. -/
def Accepted (runtime : Runtime) (file : Bytes) : Prop :=
  ∃ value, runtime.loads file = some (.object value) ∧
    verifySealedCorpus runtime value = .ok ()

/-- What is sealed. -/
structure Sealed (runtime : Runtime) (encode : String → List ℤ) (roleLimits : Dict String ℤ)
    (documents : List Document) (corpus : SealedCorpus) : Prop where
  roles : corpus.windows.map Prod.fst = allRoles
  selected : ∀ role, Selected runtime
    ((documentSplit runtime documents corpus.seed role).flatMap
      (cuts encode corpus.windowTokens)) (limitOf roleLimits role) (corpus.windowsOf role)
  counts : ∀ role, ((corpus.windowsOf role).length : ℤ) = limitOf roleLimits role
  domains : ∀ role, corpus.minimumDomains ≤
    (distinct sameString ((corpus.windowsOf role).map Window.domain)).length
  disjoint : anyOverlap sameString (allRoles.map fun role =>
    distinct sameString ((corpus.windowsOf role).map Window.documentId)) = false

theorem mem_allRoles (role : Role) : role ∈ allRoles := by
  cases role <;> decide

variable {runtime : Runtime} {shuffles : Shuffles Window} {encode : String → List ℤ}

/-- The windows of each role are those that `build_windows` returned for it. -/
theorem built_windows {split : Role → List Document} {windowTokens seed : ℤ}
    {roleLimits : Dict String ℤ} {windows : List (Role × List Window)}
    (hbuilt : allRoles.zipIdx.mapM (fun entry => do
      let windows ← buildWindows runtime shuffles (split entry.1) encode windowTokens
        (limitOf roleLimits entry.1) (seed + entry.2)
      return (entry.1, windows)) = .ok windows) :
    windows.map Prod.fst = allRoles ∧ ∀ entry ∈ windows, Selected runtime
      ((split entry.1).flatMap (cuts encode windowTokens)) (limitOf roleLimits entry.1)
        entry.2 := by
  have hentries := forall₂_of_mapM hbuilt
  constructor
  · have hroles : List.Forall₂ (fun source result => Prod.fst source = Prod.fst result)
        allRoles.zipIdx windows := by
      apply hentries.imp
      intro source result hresult
      rw [bind_eq_ok] at hresult
      obtain ⟨_, -, hpair⟩ := hresult
      rw [pure_eq_ok] at hpair
      exact congrArg Prod.fst hpair
    have hfst := List.forall₂_eq_eq_eq ▸ (List.forall₂_map_left_iff.mpr
      (List.forall₂_map_right_iff.mpr hroles))
    exact hfst.symm.trans (List.zipIdx_map_fst 0 allRoles)
  · intro entry hentry
    obtain ⟨source, -, hresult⟩ := mem_mapM_ok hbuilt hentry
    rw [bind_eq_ok] at hresult
    obtain ⟨chosen, hchosen, hpair⟩ := hresult
    rw [pure_eq_ok] at hpair
    subst hpair
    exact buildWindows_selected hchosen

variable {source : CorpusSource} {windowTokens seed minimumDomains : ℤ}
  {roleLimits : Dict String ℤ} {tokenizer : PyDict} {written : Json}
  {corpus : SealedCorpus} {artifact : Dict String PyValue} {file : Bytes}

/-- All that a seal went through. -/
theorem sealCorpus_sealed (hseal : sealCorpus runtime shuffles source encode windowTokens
      roleLimits seed tokenizer minimumDomains = .ok (corpus, artifact, file)) :
    ∃ documents bodyBytes, readDocuments source.lines = .ok documents ∧
      Sealed runtime encode roleLimits documents corpus ∧
      corpus.seed = seed ∧ corpus.windowTokens = windowTokens ∧
      corpus.tokenizer = tokenizer ∧
      canonicalJson runtime (.texts corpus.body) = .ok bodyBytes ∧
      artifact = corpus.artifact (runtime.sha256 bodyBytes) ∧
      canonicalJson runtime (.texts artifact) = .ok file := by
  simp only [sealCorpus, bind_eq_ok, require_eq_ok, pure_eq_ok] at hseal
  obtain ⟨-, -, documents, hread, windows, hbuilt, ⟨⟩, hchecked, -, hdisjoint, bodyBytes, hbody,
    fileBytes, hfile, hresult⟩ := hseal
  obtain ⟨hroles, hselected⟩ := built_windows hbuilt
  rw [Prod.mk.injEq, Prod.mk.injEq] at hresult
  obtain ⟨rfl, rfl, rfl⟩ := hresult
  let sealed : SealedCorpus := ⟨seed, windowTokens, minimumDomains, tokenizer, source.path,
    source.sha256, windows⟩
  have hmem : ∀ role, (role, sealed.windowsOf role) ∈ windows := mem_windowsOf hroles
  refine ⟨documents, bodyBytes, hread, ⟨hroles, ?_, ?_, ?_, ?_⟩, rfl, rfl, rfl, hbody, rfl,
    hfile⟩
  · exact fun role => hselected (role, sealed.windowsOf role) (hmem role)
  · intro role
    have hcheck := forM_eq_ok.mp hchecked _ (hmem role)
    simp only [checkRole, bind_eq_ok, require_eq_ok] at hcheck
    obtain ⟨-, hcount, -⟩ := hcheck
    exact hcount
  · intro role
    have hcheck := forM_eq_ok.mp hchecked _ (hmem role)
    simp only [checkRole, bind_eq_ok, require_eq_ok] at hcheck
    obtain ⟨-, -, hdomains⟩ := hcheck
    exact hdomains
  · have hwindows : sealed.windows = allRoles.map fun role => (role, sealed.windowsOf role) :=
      windows_eq hroles
    change anyOverlap sameString (sealed.windows.map _) = false at hdisjoint
    rw [hwindows, List.map_map] at hdisjoint
    exact hdisjoint

/-- The verifier finds what the sealer checked, and asks for windows in every role. -/
theorem Sealed.verify {documents : List Document}
    (hsealed : Sealed runtime encode roleLimits documents corpus) {bodyBytes : Bytes}
    (hbody : runtime.dump (Json.object (corpus.jsonBody written)).sortKeys = .ok bodyBytes) :
    verifySealedCorpus runtime
        (sortedFields (corpus.jsonArtifact written (runtime.sha256 bodyBytes))) = .ok () ↔
      ∀ role, 0 < limitOf roleLimits role := by
  have hwindow : ∀ role, ∀ window ∈ corpus.windowsOf role,
      tokenSha256 runtime window.tokenIds = .ok window.tokenSha256 :=
    fun role => (hsealed.selected role).hashed
  rw [verify_read hsealed.roles hbody]
  constructor
  · rintro ⟨sets, hsets, -⟩ role
    obtain ⟨documents, -, hrole⟩ :=
      forall₂_mem_left (forall₂_of_mapM hsets) (mem_allRoles role)
    have hne := ((verifyRole_read hsealed.roles (hwindow role)).mp hrole).1
    rw [← hsealed.counts role]
    exact Int.natCast_pos.mpr (List.length_pos_iff.mpr hne)
  · intro hpositive
    have hrole : ∀ role ∈ allRoles, verifyRole runtime corpus.minimumDomains
        (.object (sortedFields corpus.roleWindows)) (.object (sortedFields corpus.roleCounts))
          (id role) = .ok ((distinct sameString
            ((corpus.windowsOf role).map Window.documentId)).map .text) := by
      intro role _
      refine (verifyRole_read hsealed.roles (hwindow role)).mpr
        ⟨?_, hsealed.domains role, rfl⟩
      intro hempty
      have hcount := hsealed.counts role
      rw [hempty, List.length_nil] at hcount
      exact absurd (hpositive role) (hcount ▸ lt_irrefl _)
    have hsets := mapM_map_ok hrole
    rw [List.map_id] at hsets
    refine ⟨_, hsets, ?_⟩
    have hsame := @anyOverlap_map_text runtime (allRoles.map fun role =>
      distinct sameString ((corpus.windowsOf role).map Window.documentId))
    rw [List.map_map, hsealed.disjoint] at hsame
    exact hsame

/-! ## The file -/

theorem Window.written_json (window : Window) : window.json.Written := by
  refine .object fun field hmem => ?_
  simp only [Window.fields, List.mem_cons, List.not_mem_nil, or_false] at hmem
  rcases hmem with rfl | rfl | rfl | rfl | rfl
  · exact .text _
  · exact .text _
  · exact .int _
  · refine .array fun item hitem => ?_
    obtain ⟨token, -, rfl⟩ := List.mem_map.mp hitem
    exact .int token
  · exact .text _

theorem Window.uniqueKeys_json (window : Window) : window.json.uniqueKeys = true := by
  refine Json.uniqueKeys_object.mpr ⟨nodup_fields window, fun field hmem => ?_⟩
  simp only [Window.fields, List.mem_cons, List.not_mem_nil, or_false] at hmem
  rcases hmem with rfl | rfl | rfl | rfl | rfl
  · rfl
  · rfl
  · rfl
  · apply uniqueItems_eq_true.mpr
    intro item hitem
    obtain ⟨token, -, rfl⟩ := List.mem_map.mp hitem
    rfl
  · rfl

theorem written_roleCounts (corpus : SealedCorpus) :
    (Json.object corpus.roleCounts).Written := by
  refine .object fun field hfield => ?_
  obtain ⟨entry, -, rfl⟩ := List.mem_map.mp hfield
  exact .int _

theorem written_roleWindows (corpus : SealedCorpus) :
    (Json.object corpus.roleWindows).Written := by
  refine .object fun field hfield => ?_
  obtain ⟨entry, -, rfl⟩ := List.mem_map.mp hfield
  refine .array fun item hitem => ?_
  obtain ⟨window, -, rfl⟩ := List.mem_map.mp hitem
  exact window.written_json

theorem uniqueKeys_roleCounts (hroles : corpus.windows.map Prod.fst = allRoles) :
    (Json.object corpus.roleCounts).uniqueKeys = true := by
  refine Json.uniqueKeys_object.mpr ⟨?_, fun field hfield => ?_⟩
  · change (Dict.keys corpus.roleCounts).Nodup
    rw [keys_roleCounts hroles]
    exact nodup_roleNames
  · obtain ⟨entry, -, rfl⟩ := List.mem_map.mp hfield
    rfl

theorem uniqueKeys_roleWindows (hroles : corpus.windows.map Prod.fst = allRoles) :
    (Json.object corpus.roleWindows).uniqueKeys = true := by
  refine Json.uniqueKeys_object.mpr ⟨?_, fun field hfield => ?_⟩
  · change (Dict.keys corpus.roleWindows).Nodup
    rw [keys_roleWindows hroles]
    exact nodup_roleNames
  · obtain ⟨entry, -, rfl⟩ := List.mem_map.mp hfield
    apply uniqueItems_eq_true.mpr
    intro item hitem
    obtain ⟨window, -, rfl⟩ := List.mem_map.mp hitem
    exact window.uniqueKeys_json

theorem valid_artifact (hroles : corpus.windows.map Prod.fst = allRoles)
    (sealSha256 : String) : (PyValue.texts (corpus.artifact sealSha256)).Valid := by
  have hkeys : Dict.keys (corpus.artifact sealSha256) = ["schema", "seed", "window_tokens",
      "minimum_domains", "tokenizer", "source", "role_counts", "windows", "seal_sha256"] :=
    rfl
  refine PyValue.valid_texts (hkeys ▸ by decide) fun field hmem => ?_
  simp only [SealedCorpus.artifact, SealedCorpus.body, List.cons_append, List.nil_append,
    List.mem_cons, List.not_mem_nil, or_false] at hmem
  rcases hmem with rfl | rfl | rfl | rfl | rfl | rfl | rfl | rfl | rfl
  · exact .text _
  · exact .int _
  · exact .int _
  · exact .int _
  · exact corpus.tokenizer.valid
  · have hsource : ["path", "sha256"].Nodup := by decide
    refine PyValue.valid_texts hsource fun field hfield => ?_
    simp only [List.mem_cons, List.not_mem_nil, or_false] at hfield
    rcases hfield with rfl | rfl
    · exact .text _
    · exact .text _
  · exact PyValue.valid_ofJson (written_roleCounts corpus) (uniqueKeys_roleCounts hroles)
  · exact PyValue.valid_ofJson (written_roleWindows corpus) (uniqueKeys_roleWindows hroles)
  · exact .text _

theorem uniqueKeys_artifact (hroles : corpus.windows.map Prod.fst = allRoles)
    (hunique : written.uniqueKeys = true) (sealSha256 : String) :
    (Json.object (corpus.jsonArtifact written sealSha256)).uniqueKeys = true := by
  refine Json.uniqueKeys_object.mpr ⟨nodup_artifact, fun field hmem => ?_⟩
  simp only [SealedCorpus.jsonArtifact, SealedCorpus.jsonBody, List.cons_append,
    List.nil_append, List.mem_cons, List.not_mem_nil, or_false] at hmem
  rcases hmem with rfl | rfl | rfl | rfl | rfl | rfl | rfl | rfl | rfl
  · rfl
  · rfl
  · rfl
  · rfl
  · exact hunique
  · rfl
  · exact uniqueKeys_roleCounts hroles
  · exact uniqueKeys_roleWindows hroles
  · rfl

/-- Reading the file gives the artifact with its keys sorted. -/
theorem loads_file (hroles : corpus.windows.map Prod.fst = allRoles)
    (horder : corpus.tokenizer.InTextOrder written) {sealSha256 : String}
    (hfile : canonicalJson runtime (.texts (corpus.artifact sealSha256)) = .ok file) :
    runtime.loads file =
      some (.object (sortedFields (corpus.jsonArtifact written sealSha256))) := by
  have hunique := uniqueKeys_artifact hroles horder.2.uniqueKeys sealSha256
  rw [← Json.sortKeys_object]
  exact loads_canonicalJson (valid_artifact hroles sealSha256)
    (encode_artifact horder sealSha256) (Json.uniqueKeys_sortKeys hunique) hfile

theorem sealCorpus_accepted (hseal : sealCorpus runtime shuffles source encode windowTokens
      roleLimits seed tokenizer minimumDomains = .ok (corpus, artifact, file))
    (horder : tokenizer.InTextOrder written) :
    Accepted runtime file ↔ ∀ role, 0 < limitOf roleLimits role := by
  obtain ⟨documents, bodyBytes, -, hsealed, -, -, rfl, hbody, rfl, hfile⟩ :=
    sealCorpus_sealed hseal
  rw [canonicalJson_body horder] at hbody
  rw [← hsealed.verify hbody, Accepted, loads_file hsealed.roles horder hfile]
  constructor
  · rintro ⟨value, hvalue, hverify⟩
    cases hvalue
    exact hverify
  · exact fun hverify => ⟨_, rfl, hverify⟩

/-- A sealed corpus leaks nothing and is balanced.  When the identity of the
tokenizer is written in the order of texts, the verifier takes the file if every
role is asked for windows, and only then.  `build_windows` returns as many windows
as there are, up to its limit. -/
theorem corpus_sealing (runtime : Runtime) (shuffles : Shuffles Window)
    (encode : String → List ℤ) :
    (∀ (source : CorpusSource) (windowTokens : ℤ) (roleLimits : Dict String ℤ) (seed : ℤ)
        (tokenizer : PyDict) (minimumDomains : ℤ) (corpus : SealedCorpus)
        (artifact : Dict String PyValue) (file : Bytes),
      sealCorpus runtime shuffles source encode windowTokens roleLimits seed tokenizer
          minimumDomains = .ok (corpus, artifact, file) →
        ∃ documents, readDocuments source.lines = .ok documents ∧
          (∃ sealSha256, artifact = corpus.artifact sealSha256) ∧
          LeakFree encode windowTokens (documentSplit runtime documents seed)
            corpus.windowsOf ∧
          ∀ written, tokenizer.InTextOrder written →
            (Accepted runtime file ↔ ∀ role, 0 < limitOf roleLimits role)) ∧
    ∀ (documents : List Document) (windowTokens limit seed : ℤ) (windows : List Window),
      buildWindows runtime shuffles documents encode windowTokens limit seed = .ok windows →
        (windows.length : ℤ) =
          min (max 0 limit) (fullWindows encode windowTokens documents) := by
  constructor
  · intro source windowTokens roleLimits seed tokenizer minimumDomains corpus artifact file
      hseal
    obtain ⟨documents, bodyBytes, hread, hsealed, rfl, rfl, -, -, hartifact, -⟩ :=
      sealCorpus_sealed hseal
    have hids : (documents.map Document.id).Nodup := nodup_readLines hread List.nodup_nil
    exact ⟨documents, hread, ⟨_, hartifact⟩, leakFree_of_selected hids hsealed.selected,
      fun _ horder => sealCorpus_accepted hseal horder⟩
  · intro documents windowTokens limit seed windows hbuild
    have hlength := (buildWindows_selected hbuild).length_eq
    rw [length_flatMap_cuts] at hlength
    omega

/-! ## A corpus of five documents -/

def sampleSame : Json → Json → Bool
  | .text left, .text right => left = right
  | .int left, .int right => left = right
  | _, _ => false

def lineOf (value : Json) : Bytes := value.dumps ++ encodeAscii ['\n']

/-- The digests of the windows and of the sealed corpora below. -/
def sampleSha256 (bytes : Bytes) : String :=
  if bytes = lineOf (.array [.int 104, .int 101]) then
    "22bb0bd5b7f6a21dce640c51f6de1806305620f89b11c83792b3962445aaec0a"
  else if bytes = lineOf (.array [.int 108, .int 108]) then
    "177013a0d27009f5971e7c2fe1d9cffa23504857b744c9a7e421b5779709f51c"
  else if bytes = lineOf (.array [.int 104, .int 105]) then
    "537abe53af557b187ecf5bb604819ea217d05ed4ecfe9a3ed4cfe4ec10d66607"
  else if bytes.length = 1313 then
    "d8cdd71a0392bb299b33856a05c2446c8da8f93f4bf9dd668a38cc618b42418a"
  else if bytes.length = 1166 then
    "533c18ba7078d8f4bd230f21333dd20284175908fbc7bf3e09487ba52182baab"
  -- The keys 2 and 10, in this order or in the other one.
  else if bytes[282]? = some 50 then
    "1c5e0478e65ec6526b91b26e5036710b890c31bfa7a466d401d1577ef7c71425"
  else "03a09cac6e50c52a1485c736c5f4d683141fc7c0dfb7e79b0402f7a75153bfea"

theorem sampleSha256_ne (bytes : Bytes) : sampleSha256 bytes ≠ "" := by
  unfold sampleSha256
  repeat' split
  all_goals decide

/-- The digests that order the documents, by the last letter of what is hashed. -/
def sampleDigest (bytes : Bytes) : ℕ :=
  match bytes.getLast? with
  | some 97 => 41017855511729394114749038788489240223925240687369518577768057804561859270719
  | some 98 => 20636156013857346672447096622147705775072826619966525759215779300455086325409
  | some 99 => 99224308189984382488119719789435382508177297095381431622486153722948747748817
  | some 100 => 57031482285204185351518988884345258859172142766327896422993916151787511680229
  | _ => 93388277998272505751610477675251909977628053664545980673448292379646188865763

/-- `json` of texts in ASCII. -/
def sampleRuntime : Runtime where
  sha256 := sampleSha256
  sha256_ne := sampleSha256_ne
  digest := sampleDigest
  dump value := .ok (lineOf value)
  loads bytes := (Json.loads (fun _ => none) bytes).map Json.lastWins
  loads_dump value bytes hwritten hunique hdump := by
    have hblanks : ∀ char ∈ ['\n'], isBlank char = true := by
      intro char hmem
      rw [List.mem_singleton.mp hmem]
      decide
    cases hdump
    rw [lineOf, Json.loads_dumps_blanks hwritten _ hblanks, Option.map_some,
      Json.lastWins_eq_self hunique]
  intOf _ := .error (.valueError "invalid literal for int()")
  same := sampleSame
  same_text _ _ := rfl

def sampleShuffles : Shuffles Window := ⟨fun _ _ windows => windows, fun _ _ _ => .refl _⟩

/-- The tokens of a text are its letters. -/
def letters (text : String) : List ℤ := text.toList.map fun char => (char.toNat : ℤ)

def sampleSource : CorpusSource where
  path := "/corpus.jsonl"
  sha256 := "69af2deb9012a5127d069324bb5c4e1c5b0da7f8adeaf37f7ad375e7b128f9d6"
  lines := [.row (some "a") (some "d") (some "hi"), .row (some "b") (some "d") (some "hello"),
    .row (some "c") (some "d") (some "hi"), .row (some "d") (some "d") (some "hi"),
    .row (some "e") (some "d") (some "hi")]

def sampleLimits (final : ℤ) : Dict String ℤ := [("fit", 2), ("conditional_fit", 1),
  ("selection", 1), ("confirmation", 1), ("final", final)]

def sampleFields : Dict String Json :=
  [("id", .text "glm"), ("revision", .text "main"), ("class", .text "Tok")]

theorem written_sampleFields : (Json.object sampleFields).Written := by
  refine .object fun field hmem => ?_
  simp only [sampleFields, List.mem_cons, List.not_mem_nil, or_false] at hmem
  rcases hmem with rfl | rfl | rfl
  · exact .text _
  · exact .text _
  · exact .text _

def sampleTokenizer : PyDict := PyDict.texts sampleFields written_sampleFields (by decide)

/-- An identity with the keys 2 and 10. -/
def numberedTokenizer : PyDict where
  fields := [(.int 2, .text "a"), (.int 10, .text "b")]
  valid := by
    refine .object ?_ fun field hmem => ?_
    · simp [PyKey.Distinct, PyKey.number]
    · simp only [List.mem_cons, List.not_mem_nil, or_false] at hmem
      rcases hmem with rfl | rfl
      · exact .text _
      · exact .text _

def sealSample (final : ℤ) (tokenizer : PyDict) (minimumDomains : ℤ) :
    Except Failure (SealedCorpus × Dict String PyValue × Bytes) :=
  sealCorpus sampleRuntime sampleShuffles sampleSource letters 2 (sampleLimits final) 0
    tokenizer minimumDomains

theorem corpus_sealing_sample : ∃ corpus artifact file documents,
    sealSample 1 sampleTokenizer 1 = .ok (corpus, artifact, file) ∧
      readDocuments sampleSource.lines = .ok documents ∧
      LeakFree letters 2 (documentSplit sampleRuntime documents 0) corpus.windowsOf ∧
      Accepted sampleRuntime file ∧
      ∃ windows, buildWindows sampleRuntime sampleShuffles documents letters 2 4 0 =
          .ok windows ∧
        (windows.length : ℤ) = min (max 0 4) (fullWindows letters 2 documents) := by
  obtain ⟨hsealed, hbuilt⟩ := corpus_sealing sampleRuntime sampleShuffles letters
  have hok : (sealSample 1 sampleTokenizer 1).isOk = true := by decide +kernel
  obtain ⟨⟨corpus, artifact, file⟩, hseal⟩ := exists_of_isOk hok
  obtain ⟨documents, hread, -, hleak, haccepted⟩ := hsealed _ _ _ _ _ _ _ _ _ hseal
  have hpositive : ∀ role, 0 < limitOf (sampleLimits 1) role := by
    intro role
    cases role <;> decide
  have hdocuments : readDocuments sampleSource.lines = .ok [⟨"a", "d", "hi"⟩,
      ⟨"b", "d", "hello"⟩, ⟨"c", "d", "hi"⟩, ⟨"d", "d", "hi"⟩, ⟨"e", "d", "hi"⟩] := by
    decide +kernel
  have hwindows : (buildWindows sampleRuntime sampleShuffles [⟨"a", "d", "hi"⟩,
      ⟨"b", "d", "hello"⟩, ⟨"c", "d", "hi"⟩, ⟨"d", "d", "hi"⟩, ⟨"e", "d", "hi"⟩] letters 2 4
        0).isOk = true := by
    decide +kernel
  obtain rfl := Except.ok.inj (hread.symm.trans hdocuments)
  obtain ⟨windows, hbuild⟩ := exists_of_isOk hwindows
  exact ⟨corpus, artifact, file, _, hseal, hread, hleak,
    (haccepted _ (inTextOrder_texts written_sampleFields _)).mpr hpositive,
    windows, hbuild, hbuilt _ _ _ _ _ hbuild⟩

/-- The artifact is written with no key twice, and is not taken as it is written. -/
def refuses (sealing : Except Failure (SealedCorpus × Dict String PyValue × Bytes)) : Bool :=
  match sealing with
  | .ok (_, artifact, _) =>
      match (PyValue.texts artifact).encode with
      | .ok (.object fields) =>
          (Json.object fields).uniqueKeys && !(verifySealedCorpus sampleRuntime fields).isOk
      | _ => false
  | _ => false

theorem not_accepted_of_refuses {final minimumDomains : ℤ} {tokenizer : PyDict}
    (hrefuses : refuses (sealSample final tokenizer minimumDomains) = true) :
    ∃ corpus artifact file,
      sealSample final tokenizer minimumDomains = .ok (corpus, artifact, file) ∧
        ¬ Accepted sampleRuntime file := by
  cases hseal : sealSample final tokenizer minimumDomains with
  | error failure =>
      rw [hseal] at hrefuses
      cases hrefuses
  | ok result =>
      obtain ⟨corpus, artifact, file⟩ := result
      refine ⟨corpus, artifact, file, rfl, ?_⟩
      obtain ⟨documents, bodyBytes, -, hsealed, -, -, -, -, rfl, hfile⟩ :=
        sealCorpus_sealed hseal
      rw [hseal, refuses] at hrefuses
      split at hrefuses
      · rename_i fields hencode
        rw [Bool.and_eq_true] at hrefuses
        have hloads :=
          loads_canonicalJson (valid_artifact hsealed.roles _) hencode hrefuses.1 hfile
        rintro ⟨value, hvalue, hverify⟩
        cases hloads.symm.trans hvalue
        rw [hverify] at hrefuses
        cases hrefuses.2
      · cases hrefuses

/-- The verifier does not take a role without windows, nor an identity whose keys are
numbers that are not in the order of their texts.  A negative limit is as good as
zero. -/
theorem corpus_sealing_refused :
    (∃ corpus artifact file, sealSample 0 sampleTokenizer 0 = .ok (corpus, artifact, file) ∧
      ¬ Accepted sampleRuntime file) ∧
    (∃ corpus artifact file, sealSample 1 numberedTokenizer 1 = .ok (corpus, artifact, file) ∧
      ¬ Accepted sampleRuntime file) ∧
    ∃ windows, buildWindows sampleRuntime sampleShuffles [⟨"a", "d", "hi"⟩] letters 2 (-1) 0 =
        .ok windows ∧
      (windows.length : ℤ) ≠ min (-1 : ℤ) (fullWindows letters 2 [⟨"a", "d", "hi"⟩]) := by
  exact ⟨not_accepted_of_refuses (by decide +kernel),
    not_accepted_of_refuses (by decide +kernel), [], by decide +kernel, by decide⟩

end GlmFlash.Calibration
