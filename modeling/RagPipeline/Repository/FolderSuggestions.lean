import RagPipeline.Services.FolderSuggestion
import RagPipeline.TableNames

namespace RagPipeline
namespace FolderSuggestion

open Coro

structure LibraryPost where
  postId : ℤ
  title : Option String
  subreddit : Option String
  url : Option String
  isDeleted : Option Bool
  folderIds : List ℤ

structure LibraryChunk (K : Type) (d : ℕ) where
  postId : ℤ
  embedding : Option (Embedding K d)

/-- The tables by relation; `post_id` is the key of a post table. -/
structure Library (K : Type) (d : ℕ) where
  posts : String → Option (List LibraryPost)
  chunks : String → Option (List (LibraryChunk K d))
  nodup : ∀ t, ∀ rows ∈ posts t, (rows.map LibraryPost.postId).Nodup

def Library.ofTables {K : Type} {d : ℕ} (postsTable chunksTable : String)
    (posts : List LibraryPost) (nodup : (posts.map LibraryPost.postId).Nodup)
    (chunks : List (LibraryChunk K d)) : Library K d where
  posts t := if t = relation postsTable then some posts else none
  chunks t := if t = relation chunksTable then some chunks else none
  nodup t rows h := by
    rw [Option.mem_def, Option.ite_none_right_eq_some, Option.some_inj] at h
    rwa [← h.2]

/-- What the queries take from the database. -/
structure Pgvector (K : Type) (d : ℕ) where
  /-- `<=>`. -/
  cosineDistance : Embedding K d → Embedding K d → K
  /-- `ORDER BY`; rows with equal keys stand in any order. -/
  orderBy : {α : Type} → (α → K) → List α → List α

structure Pgvector.Contract {K : Type} {d : ℕ} [LinearOrder K] (db : Pgvector K d) : Prop where
  orderBy_perm : ∀ {α : Type} (key : α → K) (rows : List α), (db.orderBy key rows).Perm rows
  orderBy_sorted : ∀ {α : Type} (key : α → K) (rows : List α),
    (db.orderBy key rows).Pairwise fun a b => key a ≤ key b

/-- A database that leaves rows with equal keys as they were. -/
def sortingPgvector {K : Type} {d : ℕ} [Field K] [LinearOrder K] (sqrt : K → K) :
    Pgvector K d where
  cosineDistance a b :=
    1 - dotProduct a b / (sqrt (dotProduct a a) * sqrt (dotProduct b b))
  orderBy key rows := rows.insertionSort fun a b => key a ≤ key b

theorem contract_sortingPgvector {K : Type} {d : ℕ} [Field K] [LinearOrder K] (sqrt : K → K) :
    (sortingPgvector sqrt : Pgvector K d).Contract := by
  constructor
  · exact fun key rows => List.perm_insertionSort _ rows
  · intro α key rows
    have htotal : Std.Total fun a b : α => key a ≤ key b := ⟨fun a b => le_total (key a) (key b)⟩
    have htrans : IsTrans α fun a b => key a ≤ key b := ⟨fun a b c => le_trans⟩
    exact List.pairwise_insertionSort _ rows

/-- `NOT COALESCE(is_deleted, FALSE)`. -/
def LibraryPost.present (p : LibraryPost) : Bool := !p.isDeleted.getD false

namespace FolderSuggestionRepository

def orNotFound {α : Type} (tableName : String) : Option α → Except SuggestExc α
  | some rows => .ok rows
  | none => .error (.reader (.chunkTableNotFound tableName))

variable {K : Type} [Field K] {d : ℕ} (lib : Library K d)

def folderPostIds (postsTable : String) (folderId : ℤ) : Except SuggestExc (List ℤ) := do
  let posts ← orNotFound postsTable (lib.posts (relation (asciiLower postsTable)))
  .ok (sortedIds ((posts.filter fun p => folderId ∈ p.folderIds ∧ p.present).map
    LibraryPost.postId))

def embeddedRows (chunks : List (LibraryChunk K d)) : List (ℤ × Embedding K d) :=
  chunks.filterMap fun c => c.embedding.map fun v => (c.postId, v)

/-- `avg(embedding)`. -/
def avg (vectors : List (Embedding K d)) : Embedding K d :=
  fun j => (vectors.map fun v => v j).sum / vectors.length

def meanVectors (chunks : List (LibraryChunk K d)) (postIds : List ℤ) :
    OrderedDict ℤ (Embedding K d) :=
  let rows := (embeddedRows chunks).filter fun r => r.1 ∈ postIds
  OrderedDict.ofList ((rows.map Prod.fst).dedup.map fun i =>
    (i, avg ((rows.filter fun r => r.1 = i).map Prod.snd)))

def folderEmbeddings (chunksTable : String) (postIds : List ℤ) :
    Except SuggestExc (OrderedDict ℤ (Embedding K d)) := do
  let chunks ← orNotFound chunksTable (lib.chunks (relation (asciiLower chunksTable)))
  .ok (meanVectors chunks postIds)

def candidateRows (posts : List LibraryPost) (chunks : List (LibraryChunk K d))
    (exclude : List ℤ) : List (CandidateRow K d) :=
  (embeddedRows chunks).flatMap fun r =>
    (posts.filter fun p => p.postId = r.1 ∧ p.present ∧ r.1 ∉ exclude).map fun p =>
      { postId := r.1, title := p.title.getD "", subreddit := p.subreddit, url := p.url
        embedding := r.2 }

/-- `ORDER BY c.embedding <=> $1::vector LIMIT $3`. -/
def nearestRows (db : Pgvector K d) (query : Embedding K d) (limit : ℤ)
    (rows : List (CandidateRow K d)) : List (CandidateRow K d) :=
  (db.orderBy (fun row => db.cosineDistance row.embedding query) rows).take limit.toNat

def nearestCandidates (db : Pgvector K d) (chunksTable postsTable : String)
    (query : Embedding K d) (limit : ℤ) (excludePostIds : List ℤ) :
    Except SuggestExc (List (CandidateRow K d)) := do
  let chunks ← orNotFound chunksTable (lib.chunks (relation (asciiLower chunksTable)))
  let posts ← orNotFound chunksTable (lib.posts (relation (asciiLower postsTable)))
  .ok (nearestRows db query limit (candidateRows posts chunks excludePostIds))

def postTitles (postsTable : String) (postIds : List ℤ) :
    Except SuggestExc (OrderedDict ℤ String) :=
  match lib.posts (relation (asciiLower postsTable)) with
  | some posts => .ok (.ofList ((posts.filter fun p => p.postId ∈ postIds).map fun p =>
      (p.postId, p.title.getD "")))
  | none => .error (.reader (.other "relation does not exist"))

/-- How the repository answers over a library that stays as it is. -/
def answer (db : Pgvector K d) : (op : ReaderOp K d) → Except SuggestExc op.Ans
  | .folderPostIds postsTable folderId => folderPostIds lib postsTable folderId
  | .folderEmbeddings chunksTable postIds => folderEmbeddings lib chunksTable postIds
  | .nearestCandidates chunksTable postsTable query limit exclude =>
    nearestCandidates lib db chunksTable postsTable query limit exclude
  | .postTitles postsTable postIds => postTitles lib postsTable postIds

variable {lib} {db : Pgvector K d} {posts : List LibraryPost} {chunks : List (LibraryChunk K d)}
  {exclude postIds : List ℤ} {i : ℤ} {postsTable chunksTable : String}

omit [Field K] in
theorem folderPostIds_eq (hposts : lib.posts (relation postsTable) = some posts) (folderId : ℤ) :
    folderPostIds lib postsTable folderId = .ok (sortedIds
      ((posts.filter fun p => folderId ∈ p.folderIds ∧ p.present).map LibraryPost.postId)) := by
  simp only [folderPostIds, relation_asciiLower, hposts, orNotFound, ok_bind]

theorem folderEmbeddings_eq (hchunks : lib.chunks (relation chunksTable) = some chunks)
    (postIds : List ℤ) :
    folderEmbeddings lib chunksTable postIds = .ok (meanVectors chunks postIds) := by
  simp only [folderEmbeddings, relation_asciiLower, hchunks, orNotFound, ok_bind]

variable (db) in
omit [Field K] in
theorem nearestCandidates_eq (hposts : lib.posts (relation postsTable) = some posts)
    (hchunks : lib.chunks (relation chunksTable) = some chunks) (query : Embedding K d)
    (limit : ℤ) (exclude : List ℤ) :
    nearestCandidates lib db chunksTable postsTable query limit exclude =
      .ok (nearestRows db query limit (candidateRows posts chunks exclude)) := by
  simp only [nearestCandidates, relation_asciiLower, hposts, hchunks, orNotFound, ok_bind]

omit [Field K] in
theorem postTitles_eq (hposts : lib.posts (relation postsTable) = some posts)
    (postIds : List ℤ) : ∃ titles, postTitles lib postsTable postIds = .ok titles := by
  simp only [postTitles, relation_asciiLower, hposts, Except.ok.injEq, exists_eq']

omit [Field K] in
theorem mem_embeddedRows {r : ℤ × Embedding K d} : r ∈ embeddedRows chunks ↔
    ∃ c ∈ chunks, c.postId = r.1 ∧ c.embedding = some r.2 := by
  rw [embeddedRows, List.mem_filterMap]
  constructor
  · rintro ⟨c, hc, h⟩
    obtain ⟨v, hv, rfl⟩ := Option.map_eq_some_iff.mp h
    exact ⟨c, hc, rfl, hv⟩
  · rintro ⟨c, hc, hid, hv⟩
    refine ⟨c, hc, ?_⟩
    rw [hv, hid]
    rfl

theorem mem_keys_meanVectors : i ∈ (meanVectors chunks postIds).keys ↔
    i ∈ postIds ∧ ∃ c ∈ chunks, c.postId = i ∧ c.embedding.isSome := by
  rw [meanVectors, OrderedDict.mem_keys_ofList]
  constructor
  · rintro ⟨v, hv⟩
    obtain ⟨j, hj, heq⟩ := List.mem_map.mp hv
    obtain ⟨rfl, _⟩ := Prod.mk.inj heq
    obtain ⟨r, hr, rfl⟩ := List.mem_map.mp (List.mem_dedup.mp hj)
    rw [List.mem_filter, decide_eq_true_eq] at hr
    obtain ⟨c, hc, hid, hv⟩ := mem_embeddedRows.mp hr.1
    exact ⟨hr.2, c, hc, hid, by rw [hv]; rfl⟩
  · rintro ⟨hi, c, hc, rfl, hv⟩
    obtain ⟨v, hv⟩ := Option.isSome_iff_exists.mp hv
    refine ⟨_, List.mem_map.mpr ⟨c.postId, List.mem_dedup.mpr ?_, rfl⟩⟩
    rw [List.mem_map]
    refine ⟨(c.postId, v), ?_, rfl⟩
    rw [List.mem_filter, decide_eq_true_eq]
    exact ⟨mem_embeddedRows.mpr ⟨c, hc, rfl, hv⟩, hi⟩

omit [Field K] in
theorem exists_mem_candidateRows : (∃ row ∈ candidateRows posts chunks exclude, row.postId = i) ↔
    i ∉ exclude ∧ (∃ p ∈ posts, p.postId = i ∧ p.present) ∧
      ∃ c ∈ chunks, c.postId = i ∧ c.embedding.isSome := by
  constructor
  · rintro ⟨row, hrow, rfl⟩
    obtain ⟨r, hr, hrow⟩ := List.mem_flatMap.mp hrow
    obtain ⟨p, hp, rfl⟩ := List.mem_map.mp hrow
    rw [List.mem_filter, decide_eq_true_eq] at hp
    obtain ⟨c, hc, hid, hv⟩ := mem_embeddedRows.mp hr
    exact ⟨hp.2.2.2, ⟨p, hp.1, hp.2.1, hp.2.2.1⟩, c, hc, hid, by rw [hv]; rfl⟩
  · rintro ⟨hout, ⟨p, hp, hid, hpresent⟩, c, hc, rfl, hv⟩
    obtain ⟨v, hv⟩ := Option.isSome_iff_exists.mp hv
    refine ⟨_, List.mem_flatMap.mpr ⟨(c.postId, v), mem_embeddedRows.mpr ⟨c, hc, rfl, hv⟩,
      List.mem_map.mpr ⟨p, ?_, rfl⟩⟩, rfl⟩
    rw [List.mem_filter, decide_eq_true_eq]
    exact ⟨hp, hid, hpresent, hout⟩

variable [LinearOrder K]

omit [Field K] in
theorem mem_of_mem_nearestRows (hdb : db.Contract) {query : Embedding K d} {limit : ℤ}
    {rows : List (CandidateRow K d)} {row : CandidateRow K d}
    (h : row ∈ nearestRows db query limit rows) : row ∈ rows :=
  (hdb.orderBy_perm _ _).mem_iff.mp (List.mem_of_mem_take h)

end FolderSuggestionRepository

end FolderSuggestion
end RagPipeline
