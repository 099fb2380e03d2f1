import RagPipeline.Basics
import RagPipeline.Lib.Coroutine
import RagPipeline.Lib.OrderedDict
import RagPipeline.Services.FolderScoring

namespace RagPipeline
namespace FolderSuggestion

open Coro FolderScoring

/-- The verdicts that the feedback table admits. -/
inductive Verdict where
  | veryNo
  | no
  | yes
  | veryYes
deriving DecidableEq

def Verdict.positive (v : Verdict) : Bool := v = .yes || v = .veryYes

def Verdict.negative (v : Verdict) : Bool := v = .no || v = .veryNo

structure CandidateRow (K : Type) (d : ℕ) where
  postId : ℤ
  title : String
  subreddit : Option String
  url : Option String
  embedding : Embedding K d

/-- What `suggest_for_folder` awaits of its reader. -/
inductive ReaderOp (K : Type) (d : ℕ) where
  | folderPostIds (postsTable : String) (folderId : ℤ)
  | folderEmbeddings (chunksTable : String) (postIds : List ℤ)
  | nearestCandidates (chunksTable postsTable : String) (query : Embedding K d) (limit : ℤ)
      (excludePostIds : List ℤ)
  | postTitles (postsTable : String) (postIds : List ℤ)

abbrev ReaderOp.Ans {K : Type} {d : ℕ} : ReaderOp K d → Type
  | folderPostIds .. => List ℤ
  | folderEmbeddings .. => OrderedDict ℤ (Embedding K d)
  | nearestCandidates .. => List (CandidateRow K d)
  | postTitles .. => OrderedDict ℤ String

/-- What `suggest_for_folder` raises, or its reader does. -/
inductive SuggestExc where
  | valueError (msg : String)
  | emptyFolder (msg : String)
  | indexError
  | reader (e : PyExc)
deriving DecidableEq

abbrev ReaderCoro (K : Type) (d : ℕ) := Coro (ReaderOp K d) ReaderOp.Ans SuggestExc

/-- A call that tells Lean the type of the answer. -/
abbrev awaitReader {K : Type} {d : ℕ} (op : ReaderOp K d) : ReaderCoro K d op.Ans := call op

structure SuggestParams (K : Type) [Field K] where
  k : ℤ := 10
  knn : ℤ := 3
  maxClusters : ℤ := 5
  diversity : K := 3 / 10

structure Because (K : Type) where
  postId : ℤ
  title : String
  similarity : K

structure Suggestion (K : Type) where
  rank : ℕ
  postId : ℤ
  title : String
  subreddit : Option String
  url : Option String
  score : K
  theme : ℤ
  because : List (Because K)

structure Theme (K : Type) where
  index : ℕ
  size : ℕ
  exemplars : List (Because K)

structure SuggestResult (K : Type) where
  folderSize : ℕ
  embedded : ℕ
  missingPostIds : List ℤ
  silhouette : Option K
  candidatesConsidered : ℕ
  rejected : ℕ
  themes : List (Theme K)
  items : List (Suggestion K)

/-- `sorted(...)` of post ids. -/
def sortedIds (l : List ℤ) : List ℤ := l.insertionSort (· ≤ ·)

/-- The posts whose verdict passes the test, in ascending order. -/
def ratedPosts (verdicts : OrderedDict ℤ Verdict) (p : Verdict → Bool) : List ℤ :=
  sortedIds ((verdicts.entries.filter fun e => p e.2).map Prod.fst)

/-- `ids`: the folder and what joined it, in ascending order and each once. -/
def folderIds (postIds : List ℤ) (verdicts : OrderedDict ℤ Verdict) : List ℤ :=
  sortedIds (postIds ++ ratedPosts verdicts Verdict.positive).dedup

def poolFactor : ℤ := 5

def minPool : ℤ := 40

/-- How many candidates are fetched for each theme. -/
def poolSize (k : ℤ) : ℤ := max (k * poolFactor) minPool

def excludedIds (ids rejected : List ℤ) : List ℤ := sortedIds (ids ++ rejected).dedup

section Scoring

variable {K : Type} [Field K] [LinearOrder K] {d : ℕ} (np : Numpy K)

def veryYesWeight : K := 2

def veryNoPenalty : K := 1 / 2

/-- `by_post.setdefault(row.post_id, row)` for each row of one query. -/
def mergeRows (byPost : OrderedDict ℤ (CandidateRow K d)) (rows : List (CandidateRow K d)) :
    OrderedDict ℤ (CandidateRow K d) :=
  byPost.foldItems CandidateRow.postId (fun row first => first.getD row) rows

/-- One query per theme centroid; a post keeps the first row that was found of it. -/
def gatherCandidates (chunksTable postsTable : String) (pool : ℤ) (exclude : List ℤ) :
    List (Embedding K d) → OrderedDict ℤ (CandidateRow K d) →
      ReaderCoro K d (OrderedDict ℤ (CandidateRow K d))
  | [], byPost => ret byPost
  | centroid :: centroids, byPost => do
    let rows ← awaitReader (.nearestCandidates chunksTable postsTable centroid pool exclude)
    gatherCandidates chunksTable postsTable pool exclude centroids (mergeRows byPost rows)

/-- The `n`th of the embedded folder posts, as a reason. -/
def becauseOf (embeddedIds : List ℤ) (titles : OrderedDict ℤ String) (n : ℕ) (similarity : K) :
    Option (Because K) := do
  let postId ← embeddedIds[n]?
  some { postId, title := (titles.get? postId).getD "", similarity }

/-- The summary of theme `c`; `none` where an index is out of range. -/
def themeOf (embeddedIds : List ℤ) (titles : OrderedDict ℤ String) (folder : List (Embedding K d))
    (profile : FolderProfile K d) (c : ℕ) : Option (Theme K) := do
  let centroid ← profile.centroids[c]?
  let members := (List.range profile.labels.length).filter fun i => profile.labels[i]? = some ↑c
  let sims := sims (takeAlong folder members) centroid
  let order := (takeAlong members (np.argsort (sims.map (- ·)))).take 3
  let exemplars ← order.mapM fun m => do
    let v ← folder[m]?
    becauseOf embeddedIds titles m (dotProduct v centroid)
  some { index := c, size := members.length, exemplars }

/-- The item for candidate `idx`; `none` where an index is out of range. -/
def suggestionOf (embeddedIds : List ℤ) (titles : OrderedDict ℤ String)
    (profile : FolderProfile K d) (candidates : List (CandidateRow K d))
    (density : DensityScores K) (rank idx : ℕ) : Option (Suggestion K) := do
  let cand ← candidates[idx]?
  let nearest ← density.neighbours[idx]?
  let nearestSims ← density.neighbourSims[idx]?
  let score ← density.heat[idx]?
  let first ← nearest.head?
  let theme ← profile.labels[first]?
  let because ← ((nearest.take 2).zip (nearestSims.take 2)).mapM fun p =>
    becauseOf embeddedIds titles p.1 p.2
  some { rank, postId := cand.postId, title := cand.title, subreddit := cand.subreddit
         url := cand.url, score, theme, because }

def weightsOf (verdicts : OrderedDict ℤ Verdict) (embeddedIds : List ℤ) : List K :=
  embeddedIds.map fun i => if verdicts.get? i = some .veryYes then veryYesWeight else 1

def selectItems (params : SuggestParams K) (verdicts : OrderedDict ℤ Verdict)
    (embeddedIds : List ℤ) (titles : OrderedDict ℤ String) (folder : List (Embedding K d))
    (profile : FolderProfile K d) (candidates : List (CandidateRow K d))
    (avoid : List (Embedding K d)) : Option (List (Suggestion K)) :=
  let candMatrix := normalise np (candidates.map CandidateRow.embedding)
  let density := knnDensity np candMatrix folder params.knn (some (weightsOf verdicts embeddedIds))
  let rankingHeat := List.zipWith (· - ·) density.heat
    (avoidPenalty np candMatrix avoid veryNoPenalty)
  let picked := mmrSelect np rankingHeat candMatrix params.k (1 - params.diversity)
  (picked.zipIdx 1).mapM fun p =>
    suggestionOf embeddedIds titles profile candidates density p.2 p.1

/-- An index out of range is an exception. -/
def indexed {α : Type} : Option α → ReaderCoro K d α
  | some a => ret a
  | none => raise .indexError

/-- The posts of the folder: those given, or those that the reader has of it. -/
def folderPosts (postsTable : String) (postIds : Option (List ℤ)) (folderId : Option ℤ) :
    ReaderCoro K d (List ℤ) :=
  match postIds, folderId with
  | some ids, none => ret ids
  | none, some folderId => awaitReader (.folderPostIds postsTable folderId)
  | _, _ => raise (.valueError "give exactly one of post_ids or folder_id")

/-- The reader is not asked for the vectors of no posts. -/
def embeddingsOf (chunksTable : String) (ids : List ℤ) :
    ReaderCoro K d (OrderedDict ℤ (Embedding K d)) :=
  if ids.isEmpty then ret .empty else awaitReader (.folderEmbeddings chunksTable ids)

def suggestItems (chunksTable : String) (params : SuggestParams K)
    (verdicts : OrderedDict ℤ Verdict) (embeddedIds : List ℤ) (titles : OrderedDict ℤ String)
    (folder : List (Embedding K d)) (profile : FolderProfile K d)
    (candidates : List (CandidateRow K d)) : ReaderCoro K d (List (Suggestion K)) :=
  if candidates.isEmpty then ret []
  else do
    let avoid ← embeddingsOf chunksTable (ratedPosts verdicts (· = .veryNo))
    indexed (selectItems np params verdicts embeddedIds titles folder profile candidates
      avoid.values)

def suggestFrom (postsTable chunksTable : String) (verdicts : OrderedDict ℤ Verdict)
    (params : SuggestParams K) (ids : List ℤ) (vectors : OrderedDict ℤ (Embedding K d)) :
    ReaderCoro K d (SuggestResult K) := do
  let rejected := ratedPosts verdicts Verdict.negative
  let embeddedIds := sortedIds vectors.keys
  let folder := normalise np (embeddedIds.filterMap vectors.get?)
  let profile := buildProfile np folder params.maxClusters
  let byPost ← gatherCandidates chunksTable postsTable (poolSize params.k)
    (excludedIds ids rejected) profile.centroids .empty
  let candidates := byPost.values
  let titles ← awaitReader (.postTitles postsTable embeddedIds)
  let themes ← indexed ((List.range profile.k).mapM (themeOf np embeddedIds titles folder profile))
  let items ← suggestItems np chunksTable params verdicts embeddedIds titles folder profile
    candidates
  ret { folderSize := ids.length
        embedded := embeddedIds.length
        missingPostIds := ids.filter fun i => i ∉ vectors.keys
        silhouette := profile.silhouette
        candidatesConsidered := candidates.length
        rejected := rejected.length
        themes
        items }

def suggestForFolder (postsTable chunksTable : String) (postIds : Option (List ℤ))
    (folderId : Option ℤ) (verdicts : Option (OrderedDict ℤ Verdict))
    (params : SuggestParams K) : ReaderCoro K d (SuggestResult K) := do
  let postIds ← folderPosts postsTable postIds folderId
  let verdicts := verdicts.getD .empty
  let ids := folderIds postIds verdicts
  let vectors ← embeddingsOf chunksTable ids
  if vectors.entries.isEmpty then
    raise (.emptyFolder ("none of the " ++ toString ids.length ++
      " folder posts has an embedding in '" ++ chunksTable ++ "'"))
  else suggestFrom np postsTable chunksTable verdicts params ids vectors

end Scoring

end FolderSuggestion
end RagPipeline
