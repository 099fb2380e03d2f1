import Mathlib.Algebra.Order.Field.Basic
import Mathlib.Data.Matrix.Mul
import Mathlib.Data.List.GetD
import Mathlib.Data.List.Sort
import RagPipeline.Lib.Argmax

namespace RagPipeline

open Argmax (argmax argmin)

/-- An embedding of dimension `d`, as the column `vector(d)` of its table fixes it. -/
abbrev Embedding (K : Type) (d : ℕ) := Fin d → K

/-- What the code takes from numpy, in exact arithmetic. -/
structure Numpy (K : Type) where
  sqrt : K → K
  /-- Indices that bring the element of place `kth` to its place in sorted order. -/
  argpartition : List K → ℕ → List ℕ
  argsort : List K → List ℕ
  Generator : Type
  defaultRng : ℕ → Generator
  integers : Generator → ℕ → ℕ × Generator
  choice : Generator → ℕ → List K → ℕ × Generator

/-- `np.take_along_axis` on one row. -/
def takeAlong {α : Type} [Zero α] (row : List α) (indices : List ℕ) : List α :=
  indices.map fun i => row.getD i 0

/-- What numpy documents of `argsort` and `argpartition`. -/
structure Numpy.Contract {K : Type} [Field K] [LinearOrder K] (np : Numpy K) : Prop where
  argsort_perm : ∀ l, (np.argsort l).Perm (List.range l.length)
  argsort_sorted : ∀ l, (takeAlong l (np.argsort l)).Pairwise (· ≤ ·)
  argpartition_perm : ∀ l kth, kth < l.length →
    (np.argpartition l kth).Perm (List.range l.length)
  argpartition_before : ∀ l kth, kth < l.length →
    ∀ b ∈ (takeAlong l (np.argpartition l kth)).take kth,
      b ≤ (takeAlong l (np.argpartition l kth)).getD kth 0
  argpartition_after : ∀ l kth, kth < l.length →
    ∀ b ∈ (takeAlong l (np.argpartition l kth)).drop kth,
      (takeAlong l (np.argpartition l kth)).getD kth 0 ≤ b

namespace FolderScoring

variable {K : Type} [Field K] [LinearOrder K] {d : ℕ} (np : Numpy K)

def mean (l : List K) : K := l.sum / l.length

/-- The largest of an array that is not empty. -/
def maximum (l : List K) : K := l.max?.getD 0

def minimum (l : List K) : K := l.min?.getD 0

def norm (v : Embedding K d) : K := np.sqrt (dotProduct v v)

/-- One row of `normalise`; a zero row stays zero. -/
def normaliseRow (v : Embedding K d) : Embedding K d :=
  fun i => v i / if norm np v = 0 then 1 else norm np v

def normalise (m : List (Embedding K d)) : List (Embedding K d) := m.map (normaliseRow np)

/-- `x @ v`. -/
def sims (x : List (Embedding K d)) (v : Embedding K d) : List K := x.map fun u => dotProduct u v

/-- The folder's themes; `centroids` are unit vectors, one per cluster. -/
structure FolderProfile (K : Type) (d : ℕ) where
  centroids : List (Embedding K d)
  labels : List ℤ
  sizes : List ℕ
  silhouette : Option K

def FolderProfile.k (p : FolderProfile K d) : ℕ := p.sizes.length

/-- `_kmeans_plus_plus` between two draws. -/
structure Seeding (K : Type) (np : Numpy K) where
  idx : List ℕ
  bestSim : List K
  rng : np.Generator

/-- One more centre, drawn with a chance that grows with the distance to those there are. -/
def Seeding.draw (x : List (Embedding K d)) (s : Seeding K np) : Seeding K np :=
  let dist := s.bestSim.map fun b => max (1 - b) 0 ^ 2
  let total := dist.sum
  let (nxt, rng) :=
    if total ≤ 0 then np.integers s.rng x.length
    else np.choice s.rng x.length (dist.map (· / total))
  { idx := s.idx ++ [nxt]
    bestSim := List.zipWith max s.bestSim (sims x (x.getD nxt 0))
    rng }

def kmeansPlusPlus (x : List (Embedding K d)) (k : ℕ) (rng : np.Generator) :
    List (Embedding K d) :=
  let (first, rng) := np.integers rng x.length
  let s := (Seeding.draw np x)^[k - 1] ⟨[first], sims x (x.getD first 0), rng⟩
  takeAlong x s.idx

/-- The nearest centroid of each row, the first of them when there are several. -/
def assign (x centroids : List (Embedding K d)) : List ℤ :=
  x.map fun v => ((argmax (sims centroids v) : ℕ) : ℤ)

/-- The rows of `x` with this label. -/
def members (x : List (Embedding K d)) (labels : List ℤ) (c : ℤ) : List (Embedding K d) :=
  ((x.zip labels).filter fun p => p.2 = c).map Prod.fst

/-- The centroids after the assignment `labels`; an empty cluster starts again at the row that
fits the old centroids worst. -/
def recentre (x centroids : List (Embedding K d)) (k : ℕ) (labels : List ℤ) :
    List (Embedding K d) :=
  (List.range k).map fun (c : ℕ) =>
    let cluster := members x labels c
    if cluster.isEmpty then x.getD (argmin (x.map fun v => maximum (sims centroids v))) 0
    else normaliseRow np cluster.sum

/-- At most this many rounds, until the labels stay as they are. -/
def kmeansRounds (x : List (Embedding K d)) (k : ℕ) :
    ℕ → List ℤ → List (Embedding K d) → List ℤ × List (Embedding K d)
  | 0, labels, centroids => (labels, centroids)
  | rounds + 1, labels, centroids =>
    let newLabels := assign x centroids
    if newLabels = labels then (labels, centroids)
    else kmeansRounds x k rounds newLabels (recentre np x centroids k newLabels)

def nInit : ℕ := 5

def maxIter : ℕ := 50

/-- One run of `spherical_kmeans`, with its total within-cluster similarity. -/
def kmeansRun (x : List (Embedding K d)) (k seed : ℕ) : K × List ℤ × List (Embedding K d) :=
  let centroids := kmeansPlusPlus np x k (np.defaultRng seed)
  let (labels, centroids) := kmeansRounds np x k maxIter (List.replicate x.length (-1)) centroids
  ((x.map fun v => maximum (sims centroids v)).sum, labels, centroids)

/-- The best so far; a later one has to be better. -/
def keepBest {α : Type} (best : Option (K × α)) (next : K × α) : Option (K × α) :=
  match best with
  | none => some next
  | some b => if b.1 < next.1 then some next else some b

/-- `none` is the failed assertion of a function that made no run. -/
def sphericalKmeans (x : List (Embedding K d)) (k : ℕ) (seed : ℕ) :
    Option (List ℤ × List (Embedding K d)) :=
  let x := normalise np x
  let k := min k x.length
  (((List.range nInit).map fun run => kmeansRun np x k (seed + run)).foldl keepBest none).map
    Prod.snd

/-- The silhouette of row `i`. -/
def silhouetteOf (x : List (Embedding K d)) (labels : List ℤ) (v : Embedding K d) (label : ℤ) :
    K :=
  let distTo (c : ℤ) : List K :=
    (members x labels c).map fun u => max (1 - dotProduct v u) 0
  let own := distTo label
  if own.length ≤ 1 then 0
  else
    let a := own.sum / (own.length - 1)
    let b := minimum ((labels.dedup.filter (· ≠ label)).map fun c => mean (distTo c))
    (b - a) / max (max a b) (1 / 10 ^ 12)

/-- Mean silhouette using cosine distance. -/
def silhouette (x : List (Embedding K d)) (labels : List ℤ) : K :=
  let x := normalise np x
  if labels.dedup.length < 2 then 0
  else mean ((x.zip labels).map fun p => silhouetteOf x labels p.1 p.2)

def minClusterSize : ℕ := 4

def minSilhouette : K := 15 / 100

/-- The sizes of the clusters `0`, ..., `k - 1`. -/
def clusterSizes (labels : List ℤ) (k : ℕ) : List ℕ :=
  (List.range k).map fun (c : ℕ) => labels.count (c : ℤ)

/-- The folder in `k` themes, unless one of them is a singleton or empty. -/
def candidateProfile (x : List (Embedding K d)) (k : ℕ) : Option (K × FolderProfile K d) := do
  let (labels, centroids) ← sphericalKmeans np x k 0
  let sizes := clusterSizes labels k
  if sizes.any (· < 2) then none
  else
    let s := silhouette np x labels
    some (s, { centroids, labels, sizes, silhouette := some s })

/-- The whole folder as one theme. -/
def oneTheme (x : List (Embedding K d)) : FolderProfile K d where
  centroids := [normaliseRow np x.sum]
  labels := List.replicate x.length 0
  sizes := [x.length]
  silhouette := none

/-- Split the folder into themes, or keep it as one when it has no clear structure. -/
def buildProfile (folder : List (Embedding K d)) (maxClusters : ℤ) : FolderProfile K d :=
  let x := normalise np folder
  let n := x.length
  let kMax := min maxClusters ((n / minClusterSize : ℕ) : ℤ)
  if kMax < 2 then oneTheme np x
  else
    let tried := (List.range' 2 (kMax.toNat - 1)).filterMap (candidateProfile np x)
    match tried.foldl keepBest none with
    | none => oneTheme np x
    | some best => if best.1 < minSilhouette then oneTheme np x else best.2

structure DensityScores (K : Type) where
  heat : List K
  neighbours : List (List ℕ)
  neighbourSims : List (List K)

/-- The `m` folder items nearest to a candidate with these similarities, nearest first, and their
similarities. -/
def nearest (row : List K) (m : ℕ) : List ℕ × List K :=
  let top := (np.argpartition (row.map (- ·)) (m - 1)).take m
  let topSims := takeAlong row top
  let order := np.argsort (topSims.map (- ·))
  (takeAlong top order, takeAlong topSims order)

/-- The mean of the neighbours' similarities, or the mean by the weights of the folder items. -/
def heatOf (weights : Option (List K)) (top : List ℕ) (topSims : List K) : K :=
  match weights with
  | none => mean topSims
  | some weights =>
    let w := takeAlong weights top
    (List.zipWith (· * ·) topSims w).sum / w.sum

/-- kNN density estimate of each candidate within the folder. -/
def knnDensity (candidates folder : List (Embedding K d)) (knn : ℤ) (weights : Option (List K)) :
    DensityScores K :=
  let c := normalise np candidates
  let p := normalise np folder
  let m := (max 1 (min knn p.length)).toNat
  let rows := c.map fun v => nearest np (sims p v) m
  { heat := rows.map fun r => heatOf weights r.1 r.2
    neighbours := rows.map Prod.fst
    neighbourSims := rows.map Prod.snd }

/-- Per-candidate penalty for being close to what the user said "very no" to. -/
def avoidPenalty (candidates avoid : List (Embedding K d)) (strength : K) : List K :=
  if avoid.isEmpty then List.replicate candidates.length 0
  else (normalise np candidates).map fun v =>
    strength * max (maximum (sims (normalise np avoid) v)) 0

/-- `mmr_select` between two picks. -/
structure Picking (K : Type) where
  selected : List ℕ
  maxSimToSelected : List K
  chosen : List Bool

section Selection

variable (sim : ℕ → ℕ → K) (heat : List K) (mmrLambda : K)

/-- The similarities of all candidates to candidate `s`. -/
def simsTo (s : ℕ) : List K := (List.range heat.length).map fun i => sim i s

/-- The marginal relevance of each candidate, minus infinity for those already chosen. -/
def Picking.mmr (p : Picking K) : List (WithBot K) :=
  List.zipWith (fun (r : K) chosen => if chosen then ⊥ else (r : WithBot K))
    (List.zipWith (fun h s => mmrLambda * h - (1 - mmrLambda) * s) heat p.maxSimToSelected)
    p.chosen

def Picking.start : Picking K :=
  let first := argmax heat
  { selected := [first]
    maxSimToSelected := simsTo sim heat first
    chosen := (List.replicate heat.length false).set first true }

/-- One turn of the loop. -/
def Picking.pick (p : Picking K) : Picking K :=
  let nxt := argmax (p.mmr heat mmrLambda)
  { selected := p.selected ++ [nxt]
    maxSimToSelected := List.zipWith max p.maxSimToSelected (simsTo sim heat nxt)
    chosen := p.chosen.set nxt true }

/-- `mmr_select` over the similarities of the candidates. Each turn of the loop adds one, so it
takes `k - 1` turns. -/
def mmrSelectBy (k : ℤ) : List ℕ :=
  let k := min k heat.length
  if k ≤ 0 then []
  else ((Picking.pick sim heat mmrLambda)^[k.toNat - 1] (.start sim heat)).selected

end Selection

/-- Maximal Marginal Relevance: candidate indices in selection order. -/
def mmrSelect (heat : List K) (candidates : List (Embedding K d)) (k : ℤ) (mmrLambda : K) :
    List ℕ :=
  let c := normalise np candidates
  mmrSelectBy (fun i s => dotProduct (c.getD i 0) (c.getD s 0)) heat mmrLambda k

end FolderScoring
end RagPipeline
