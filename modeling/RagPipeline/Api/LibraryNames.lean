import RagPipeline.Api.Similar
import RagPipeline.Api.Sync
import RagPipeline.Lib.Crash
import RagPipeline.Lib.Regex

namespace RagPipeline
open Coro

/-- A letter a-z, then letters a-z, digits and underscores. -/
def isLibraryName : List Char → Bool
  | [] => false
  | c :: cs => isLowerAscii c && cs.all isWordAscii

abbrev IsLibraryName (s : String) : Prop := isLibraryName s.toList = true

def EndsInNewline (s : String) : Prop := ∃ name, IsLibraryName name ∧ s = name ++ "\n"

theorem isLibraryName_iff {l : List Char} : isLibraryName l = true ↔
    ∃ c cs, l = c :: cs ∧ isLowerAscii c = true ∧ ∀ d ∈ cs, isWordAscii d = true := by
  cases l with
  | nil => simp [isLibraryName]
  | cons c cs => simp [isLibraryName]

theorem isWordAscii_of_isLibraryName {l : List Char} (h : isLibraryName l = true) :
    ∀ c ∈ l, isWordAscii c = true := by
  obtain ⟨c, cs, hl, hc, hcs⟩ := isLibraryName_iff.mp h
  rw [hl]
  refine List.forall_mem_cons.mpr ⟨?_, hcs⟩
  simp [isWordAscii, hc]

theorem endsInNewline_iff {s : String} : EndsInNewline s ↔
    ∃ l, isLibraryName l = true ∧ s.toList = l ++ ['\n'] := by
  constructor
  · intro h
    obtain ⟨name, hname, hs⟩ := h
    exact ⟨name.toList, hname, by rw [hs, String.toList_append]; rfl⟩
  · intro h
    obtain ⟨l, hl, hs⟩ := h
    refine ⟨String.ofList l, by rwa [IsLibraryName, String.toList_ofList], ?_⟩
    rw [← String.toList_inj, hs, String.toList_append, String.toList_ofList]
    rfl

theorem newline_mem_of_endsInNewline {s : String} (h : EndsInNewline s) : '\n' ∈ s.toList := by
  obtain ⟨l, -, hs⟩ := endsInNewline_iff.mp h
  rw [hs]
  exact List.mem_append_right l (List.mem_singleton_self _)

theorem not_isWordAscii_newline : ¬ isWordAscii '\n' = true := by decide

theorem not_isLibraryName_of_endsInNewline {s : String} (h : EndsInNewline s) :
    ¬ IsLibraryName s := by
  intro hs
  exact not_isWordAscii_newline
    (isWordAscii_of_isLibraryName hs _ (newline_mem_of_endsInNewline h))

/-- `^[a-z][a-z0-9_]*$`. -/
def libraryIdPattern : Regex Char := Regex.anchored isLowerAscii isWordAscii '\n'

theorem match_libraryIdPattern {s : String} : libraryIdPattern.Match s.toList ↔
    IsLibraryName s ∨ EndsInNewline s := by
  rw [libraryIdPattern, Regex.match_anchored, IsLibraryName, endsInNewline_iff]
  simp only [isLibraryName_iff]
  constructor
  · intro h
    obtain ⟨c, cs, hs, hc, hcs⟩ := h
    exact hs.imp (fun hword => ⟨c, cs, hword, hc, hcs⟩)
      fun hline => ⟨c :: cs, ⟨c, cs, rfl, hc, hcs⟩, hline⟩
  · intro h
    apply h.elim
    · intro hname
      obtain ⟨c, cs, hs, hc, hcs⟩ := hname
      exact ⟨c, cs, .inl hs, hc, hcs⟩
    · intro hline
      obtain ⟨l, ⟨c, cs, hl, hc, hcs⟩, hs⟩ := hline
      exact ⟨c, cs, .inr (hl ▸ hs), hc, hcs⟩

theorem fullMatch_libraryIdPattern {s : String} : libraryIdPattern.FullMatch s.toList ↔
    IsLibraryName s := by
  rw [libraryIdPattern, Regex.fullMatch_anchored, IsLibraryName, isLibraryName_iff]

/-- The check of the model is `re.match` on the pattern. -/
theorem matchesLibraryIdPattern_iff {s : String} :
    matchesLibraryIdPattern s.toList = true ↔ libraryIdPattern.Match s.toList := by
  rw [libraryIdPattern, Regex.match_anchored]
  cases hs : s.toList with
  | nil => simp [matchesLibraryIdPattern]
  | cons c cs =>
    rw [matchesLibraryIdPattern, Bool.and_eq_true]
    constructor
    · intro h
      by_cases hlast : cs.getLast? = some '\n'
      · -- the line break at the end is not looked at
        rw [if_pos hlast] at h
        have hcs : cs = cs.dropLast ++ ['\n'] := (List.dropLast_append_getLast? _ hlast).symm
        refine ⟨c, cs.dropLast, .inr ?_, h.1, List.all_eq_true.mp h.2⟩
        rw [List.cons_append, ← hcs]
      · rw [if_neg hlast] at h
        exact ⟨c, cs, .inl rfl, h.1, List.all_eq_true.mp h.2⟩
    · intro h
      obtain ⟨d, ds, hs, hd, hds⟩ := h
      apply hs.elim
      · intro hword
        obtain ⟨rfl, rfl⟩ := List.cons.inj hword
        have hlast : ¬ cs.getLast? = some '\n' := fun hlast =>
          not_isWordAscii_newline (hds _ (List.mem_of_getLast? hlast))
        rw [if_neg hlast]
        exact ⟨hd, List.all_eq_true.mpr hds⟩
      · intro hline
        rw [List.cons_append] at hline
        obtain ⟨rfl, rfl⟩ := List.cons.inj hline
        rw [List.getLast?_concat, if_pos rfl, List.dropLast_concat]
        exact ⟨hd, List.all_eq_true.mpr hds⟩

theorem validateLibraryId_iff {s : String} :
    validateLibraryId s = .ok s ↔ IsLibraryName s ∨ EndsInNewline s := by
  rw [← match_libraryIdPattern, ← matchesLibraryIdPattern_iff, validateLibraryId]
  split_ifs with h <;> simp [h]

def postsPrefix : String := "posts_"

/-- `table_name[len("posts_"):]` of a name that starts so, and any other name as it is. -/
def strippedTableName (tableName : String) : String :=
  if postsPrefix.toList.isPrefixOf tableName.toList then
    String.ofList (tableName.toList.drop postsPrefix.length)
  else tableName

/-- The ValueError of `_derive_library_id`. -/
structure CannotDerive where
  tableName : String
deriving DecidableEq

/-- The text of the error, with the `repr` of a `str`. -/
def CannotDerive.message (repr : String → String) (e : CannotDerive) : String :=
  "Cannot derive a valid library_id from table_name=" ++ repr e.tableName ++
    ". Expected 'posts_<id>' or a plain lowercase identifier."

def deriveLibraryId (tableName : String) : Except CannotDerive String :=
  let candidate := strippedTableName tableName
  if matchesLibraryIdPattern candidate.toList then .ok candidate else .error ⟨tableName⟩

theorem deriveLibraryId_iff {tableName s : String} : deriveLibraryId tableName = .ok s ↔
    strippedTableName tableName = s ∧ validateLibraryId s = .ok s := by
  unfold deriveLibraryId validateLibraryId
  dsimp only
  constructor
  · intro h
    split_ifs at h with hmatch
    have hs : strippedTableName tableName = s := Except.ok.inj h
    rw [hs] at hmatch
    exact ⟨hs, if_pos hmatch⟩
  · intro h
    obtain ⟨hs, hvalid⟩ := h
    rw [hs]
    split_ifs at hvalid with hmatch
    rw [if_pos hmatch]

structure LegacySyncRequest where
  posts : List Post
  tableName : String := "posts"

/-- `NewSyncRequest(posts=req.posts, library_id=library_id)`, whose own check never fails. -/
def LegacySyncRequest.toSyncRequest (req : LegacySyncRequest) : Except CannotDerive SyncRequest :=
  match h : deriveLibraryId req.tableName with
  | .ok libraryId => .ok ⟨req.posts, libraryId, (deriveLibraryId_iff.mp h).2⟩
  | .error e => .error e

/-- The default table name has no prefix to strip. -/
example : deriveLibraryId "posts" = .ok "posts" := by decide

def folderTable (libraryId : String) : String := "folders_" ++ libraryId

def highlightTable (libraryId : String) : String := "highlights_" ++ libraryId

def chunkTables (libraryId : String) : List String :=
  embedConfigs.entries.map fun e => buildChunkTableName (postTable libraryId) e.1 e.2.primary

/-- The table names that stand in the statements of a request, after the `.lower()` of the
repositories. -/
def sqlTableNames (libraryId : String) : List String :=
  ([postTable libraryId, folderTable libraryId, highlightTable libraryId] ++
    chunkTables libraryId).map asciiLower

/-- Letters a-z, digits and underscores only. -/
def IsSqlWord (name : String) : Prop := ∀ c ∈ name.toList, isWordAscii c = true

instance (name : String) : Decidable (IsSqlWord name) := List.decidableBAll _ _

theorem IsSqlWord.append {s t : String} (hs : IsSqlWord s) (ht : IsSqlWord t) :
    IsSqlWord (s ++ t) := by
  intro c hc
  rw [String.toList_append, List.mem_append] at hc
  exact hc.elim (hs c) (ht c)

theorem IsSqlWord.truncateIdentifier {s : String} (hs : IsSqlWord s) :
    IsSqlWord (truncateIdentifier s) := by
  intro c hc
  rw [toList_truncateIdentifier] at hc
  exact hs c (List.mem_of_mem_take hc)

theorem toLower_of_isWordAscii {c : Char} (h : isWordAscii c = true) : c.toLower = c := by
  unfold Char.toLower
  split
  next hupper =>
    exfalso
    have hword : ('a' ≤ c ∧ c ≤ 'z' ∨ '0' ≤ c ∧ c ≤ '9') ∨ c = '_' := by
      simpa [isWordAscii, isLowerAscii] using h
    apply hword.elim
    · intro hrange
      grind [UInt32.le_iff_toNat_le, Char.le_def]
    · intro hc
      rw [hc] at hupper
      exact absurd hupper (by decide)
  next => rfl

theorem IsSqlWord.asciiLower_eq {s : String} (hs : IsSqlWord s) : asciiLower s = s := by
  have hmap : s.toList.map Char.toLower = s.toList :=
    (List.map_congr_left fun c hc => toLower_of_isWordAscii (hs c hc)).trans (List.map_id _)
  rw [asciiLower, hmap, String.ofList_toList]

theorem isSqlWord_suffixes : ∀ e ∈ embedConfigs.entries,
    IsSqlWord (chunksMarker ++ chunkTableSuffix (asciiLower e.1) e.2.primary) := by
  decide +kernel

theorem isSqlWord_of_isLibraryName {s : String} (h : IsLibraryName s) : IsSqlWord s :=
  isWordAscii_of_isLibraryName h

theorem isSqlWord_postTable {s : String} (h : IsSqlWord s) : IsSqlWord (postTable s) :=
  IsSqlWord.append (by decide) h

theorem isSqlWord_chunkTables {s : String} (h : IsSqlWord s) :
    ∀ name ∈ chunkTables s, IsSqlWord name := by
  intro name hname
  obtain ⟨e, he, hbuild⟩ := List.mem_map.mp hname
  rw [← hbuild, buildChunkTableName, String.append_assoc]
  apply IsSqlWord.truncateIdentifier
  exact (isSqlWord_postTable h).append (isSqlWord_suffixes e he)

theorem isSqlWord_sqlTableNames {s : String} (h : IsSqlWord s) :
    ∀ name ∈ sqlTableNames s, IsSqlWord name := by
  intro name hname
  obtain ⟨table, htable, hlower⟩ := List.mem_map.mp hname
  have hword : IsSqlWord table := by
    rw [List.mem_append] at htable
    apply htable.elim
    · have hfolder : IsSqlWord (folderTable s) := IsSqlWord.append (by decide) h
      have hhighlight : IsSqlWord (highlightTable s) := IsSqlWord.append (by decide) h
      have hall : ∀ t ∈ [postTable s, folderTable s, highlightTable s], IsSqlWord t := by
        simp [isSqlWord_postTable h, hfolder, hhighlight]
      exact hall table
    · exact isSqlWord_chunkTables h table
  rw [← hlower, hword.asciiLower_eq]
  exact hword

/-- A line break comes through into the name of the post table. -/
theorem not_isSqlWord_postTable {s : String} (h : '\n' ∈ s.toList) :
    ¬ IsSqlWord (asciiLower (postTable s)) := by
  intro hword
  have hmem : '\n' ∈ (asciiLower (postTable s)).toList := by
    rw [asciiLower, String.toList_ofList, postTable, String.toList_append, List.map_append]
    exact List.mem_append_right _ (List.mem_map.mpr ⟨'\n', h, rfl⟩)
  exact not_isWordAscii_newline (hword _ hmem)

theorem asciiLower_postTable_mem (s : String) : asciiLower (postTable s) ∈ sqlTableNames s :=
  List.mem_map_of_mem (by simp)

def SyncOp.tableName : SyncOp → Option String
  | ensureTable t | fetch _ t | fetchUpdatedAt _ t | executeUpsert _ t => some t
  | publish _ => none

def SyncOp.OnTable (tableName : String) (op : SyncOp) : Prop :=
  ∀ name ∈ op.tableName, name = asciiLower tableName

theorem only_awaitSync {op : SyncOp} {tableName : String}
    (h : op.tableName = none ∨ op.tableName = some (asciiLower tableName)) :
    (awaitSync op).Only (SyncOp.OnTable tableName) := by
  apply only_call
  intro name hname
  apply h.elim
  · intro hnone
    rw [hnone] at hname
    cases hname
  · intro hsome
    rw [hsome] at hname
    exact (Option.some.inj hname).symm

theorem only_upsert (post : Post) (tableName : String) :
    (PostRepository.upsert post tableName).Only (SyncOp.OnTable tableName) := by
  unfold PostRepository.upsert
  apply Only.bind (only_awaitSync (.inr rfl))
  intro existing
  apply Only.bind (only_ofExcept _)
  intro fresh
  by_cases hfresh : fresh = true
  · rw [if_pos hfresh]
    trivial
  · rw [if_neg hfresh]
    apply Only.bind (only_awaitSync (.inr rfl))
    intro _
    trivial

theorem only_syncPost (trace : Option String × Option String) (tableName eventId : String)
    (post : Post) : (syncPost trace tableName eventId post).Only (SyncOp.OnTable tableName) := by
  unfold syncPost
  apply Only.attempt
  · apply Only.bind (only_awaitSync (.inr rfl))
    intro existing
    apply Only.bind (only_upsert post tableName)
    intro r
    dsimp only
    split_ifs
    · apply Only.bind (only_awaitSync (.inl rfl))
      intro _
      trivial
    · trivial
  · intro e
    trivial

theorem only_syncPosts (span : Option SpanIds) (uuid : ℕ → String) (req : SyncRequest) :
    (syncPosts span uuid req).Only (SyncOp.OnTable (postTable req.libraryId)) := by
  unfold syncPosts
  apply Only.bind (only_awaitSync (.inr rfl))
  intro _
  induction req.posts.zipIdx with
  | nil => trivial
  | cons p rest ih =>
    rw [syncEach]
    apply Only.bind (only_syncPost _ _ _ _)
    intro result
    apply Only.bind ih
    intro results
    trivial

theorem chunkTable_mem {taskType : String} {cfg : EmbedConfig}
    (hcfg : embedConfigs.get? taskType = some cfg) (libraryId : String) :
    asciiLower (buildChunkTableName (postTable libraryId) taskType cfg.primary) ∈
      sqlTableNames libraryId := by
  apply List.mem_map_of_mem
  rw [List.mem_append]
  right
  exact List.mem_map.mpr ⟨(taskType, cfg), OrderedDict.get?_eq_some.mp hcfg, rfl⟩

def SearchApiOp.tableName : SearchApiOp → Option String
  | tableExists t => some t
  | createJob _ _ _ t _ _ _ => some t
  | checkReranker _ | publish _ => none

def SearchApiOp.InLibrary (libraryId : String) (op : SearchApiOp) : Prop :=
  ∀ name ∈ op.tableName, asciiLower name ∈ sqlTableNames libraryId

theorem only_requestedProfile (libraryId : String) (req : SearchRequest) :
    (requestedProfile req).Only (SearchApiOp.InLibrary libraryId) := by
  unfold requestedProfile
  split_ifs
  · dsimp only
    cases rerankConfigs.get? ((truthy req.rerankProfile).getD "default") with
    | none => trivial
    | some cfg =>
      have hcheck : SearchApiOp.InLibrary libraryId (.checkReranker cfg) := by
        intro name hname
        cases hname
      apply Only.bind (only_call hcheck)
      intro availability
      split_ifs <;> trivial
  · trivial

theorem only_createSearch (span : Option SpanIds) (req : SearchRequest) :
    (createSearch span req).Only (SearchApiOp.InLibrary req.libraryId) := by
  unfold createSearch
  cases hcfg : embedConfigs.get? req.chunkType with
  | none => trivial
  | some cfg =>
    have htable := chunkTable_mem hcfg req.libraryId
    have hexists : SearchApiOp.InLibrary req.libraryId (.tableExists
        (buildChunkTableName ("posts_" ++ req.libraryId) req.chunkType cfg.primary)) := by
      intro name hname
      obtain rfl := Option.some.inj hname
      exact htable
    apply Only.bind (only_call hexists)
    intro tableExists
    dsimp only
    by_cases hfound : tableExists = true
    · rw [if_pos hfound]
      apply Only.bind (only_requestedProfile req.libraryId req)
      intro rerankProfile
      have hjob : SearchApiOp.InLibrary req.libraryId (.createJob req.query req.k cfg.primary
          (buildChunkTableName ("posts_" ++ req.libraryId) req.chunkType cfg.primary)
          req.libraryId req.rerank rerankProfile) := by
        intro name hname
        obtain rfl := Option.some.inj hname
        exact htable
      apply Only.bind (only_call hjob)
      intro jobId
      have hpublish : ∀ e, SearchApiOp.InLibrary req.libraryId (.publish e) := by
        intro e name hname
        cases hname
      apply Only.bind (only_call (hpublish _))
      intro _
      trivial
    · rw [if_neg hfound]
      trivial

def SimilarOp.tableName : SimilarOp → String
  | getPostEmbeddings _ t | searchNearest t _ _ _ => t

def SimilarOp.InLibrary (libraryId : String) (op : SimilarOp) : Prop :=
  asciiLower op.tableName ∈ sqlTableNames libraryId

/-- The search for similar posts is in a chunk table of the library. -/
theorem only_findSimilar (req : SimilarRequest) :
    (findSimilar req).Only (SimilarOp.InLibrary req.libraryId) := by
  unfold findSimilar
  cases hcfg : embedConfigs.get? req.chunkType with
  | none => trivial
  | some cfg =>
    have htable := chunkTable_mem hcfg req.libraryId
    have hfetch : SimilarOp.InLibrary req.libraryId
        (.getPostEmbeddings req.postId (req.chunksTable cfg)) := htable
    apply Only.bind
    · apply Only.attempt (only_call hfetch)
      intro e
      split <;> trivial
    · intro embeddings
      apply Only.bind (only_ofExcept _)
      intro query
      have hsearch : SimilarOp.InLibrary req.libraryId
          (.searchNearest (req.chunksTable cfg) query.2 req.k (some req.postId)) := htable
      apply Only.bind (only_call hsearch)
      intro rawResults
      trivial

theorem accepts_exactly_iff {s : String} :
    (IsLibraryName s ∨ EndsInNewline s ↔ IsLibraryName s) ↔ ¬ EndsInNewline s := by
  rw [or_iff_left_iff_imp]
  constructor
  · intro h hline
    exact not_isLibraryName_of_endsInNewline hline (h hline)
  · intro h hline
    exact absurd hline h

/-- The checks accept the plain names, and besides them those with one line break at the end, which
reaches the SQL. -/
theorem library_checks_exact_iff (s tableName : String) :
    ((validateLibraryId s = .ok s ↔ IsLibraryName s) ↔ ¬ EndsInNewline s) ∧
      ((deriveLibraryId tableName = .ok s ↔ strippedTableName tableName = s ∧ IsLibraryName s) ↔
        ¬ (strippedTableName tableName = s ∧ EndsInNewline s)) ∧
      ((validateLibraryId s = .ok s → ∀ name ∈ sqlTableNames s, IsSqlWord name) ↔
        ¬ EndsInNewline s) := by
  rw [deriveLibraryId_iff, and_congr_right_iff, not_and, validateLibraryId_iff]
  refine ⟨accepts_exactly_iff, imp_congr_right fun _ => accepts_exactly_iff, ?_⟩
  constructor
  · intro hnames hline
    exact not_isSqlWord_postTable (newline_mem_of_endsInNewline hline)
      (hnames (.inr hline) _ (asciiLower_postTable_mem s))
  · intro hline haccepted
    have hname : IsLibraryName s := haccepted.resolve_right hline
    exact isSqlWord_sqlTableNames (isSqlWord_of_isLibraryName hname)

theorem library_checks_accept_newline :
    validateLibraryId "main\n" = .ok "main\n" ∧
      deriveLibraryId "posts_main\n" = .ok "main\n" ∧ ¬ IsLibraryName "main\n" ∧
      ∃ name ∈ sqlTableNames "main\n", ¬ IsSqlWord name := by
  decide +kernel

end RagPipeline
