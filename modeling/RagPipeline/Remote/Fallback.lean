import RagPipeline.Remote.Client

namespace RagPipeline
open Coro

/-- A local embedding model, with one vector for each text. -/
structure LocalEncoder where
  encode : List String → List Vec
  length_encode : ∀ texts, (encode texts).length = texts.length

structure LocalScorer where
  score : String → List String → List ℚ
  length_score : ∀ query documents, (score query documents).length = documents.length

/-- The remote leg when all three checks pass and it does not raise, and else the local one. -/
def withFallback {α : Type} (r : RemoteClient) (remote : HttpCoro α) (localLeg : α) :
    HttpCoro α := do
  if !(← r.isEndpointHealthy) then return localLeg
  else if !(← r.isModelAvailable) then return localLeg
  else if !(← r.ensureModelLoaded) then return localLeg
  else attempt remote fun _ => ret localLeg

structure FallbackEmbeddingModel where
  remote : RemoteClient
  localModel : LocalEncoder

structure FallbackRerankModel where
  remote : RemoteClient
  localModel : LocalScorer

def FallbackEmbeddingModel.localEncode (m : FallbackEmbeddingModel) (texts : List String) :
    List Json := (m.localModel.encode texts).map fun vec => .arr (vec.map .float)

def FallbackEmbeddingModel.encode (m : FallbackEmbeddingModel) (texts : List String) :
    HttpCoro (List Json) :=
  withFallback m.remote (m.remote.encode texts) (m.localEncode texts)

def FallbackRerankModel.localScore (m : FallbackRerankModel) (query : String)
    (documents : List String) : List Json := (m.localModel.score query documents).map .float

def FallbackRerankModel.score (m : FallbackRerankModel) (query : String)
    (documents : List String) : HttpCoro (List Json) :=
  withFallback m.remote (m.remote.score query documents) (m.localScore query documents)

variable {σ : Type} (w : World HttpOp (fun _ => HttpResponse) PyExc σ) (s : σ)

/-- The three checks pass, and leave the endpoint in that state. -/
def RemoteClient.Passes (r : RemoteClient) (t : σ) : Prop :=
  ∃ s₁ s₂, run w r.isEndpointHealthy s = (.ok true, s₁) ∧
    run w r.isModelAvailable s₁ = (.ok true, s₂) ∧ run w r.ensureModelLoaded s₂ = (.ok true, t)

/-- The checks pass, and the request is answered. -/
def RemoteClient.Answered (r : RemoteClient) (op : HttpOp) (resp : HttpResponse) : Prop :=
  ∃ t, r.Passes w s t ∧ (w op t).1 = .ok resp

variable {w s} {r : RemoteClient}

theorem RemoteClient.Passes.unique {t t' : σ} (h : r.Passes w s t) (h' : r.Passes w s t') :
    t = t' := by
  obtain ⟨s₁, s₂, h₁, h₂, h₃⟩ := h
  obtain ⟨s₁', s₂', h₁', h₂', h₃'⟩ := h'
  obtain rfl := (Prod.mk.inj (h₁.symm.trans h₁')).2
  obtain rfl := (Prod.mk.inj (h₂.symm.trans h₂')).2
  exact (Prod.mk.inj (h₃.symm.trans h₃')).2

theorem RemoteClient.Answered.unique {op : HttpOp} {resp resp' : HttpResponse}
    (h : r.Answered w s op resp) (h' : r.Answered w s op resp') : resp = resp' := by
  obtain ⟨t, ht, hresp⟩ := h
  obtain ⟨t', ht', hresp'⟩ := h'
  obtain rfl := ht.unique ht'
  exact Except.ok.inj (hresp.symm.trans hresp')

/-- A `try` block whose `except` clause returns does not raise. -/
theorem run_attempt_ret {α : Type} (p : HttpCoro α) (a : α) (s : σ) :
    ∃ b t, run w (p.attempt fun _ => ret a) s = (.ok b, t) := by
  rw [run_attempt]
  rcases run w p s with ⟨_ | b, t⟩
  · exact ⟨a, t, rfl⟩
  · exact ⟨b, t, rfl⟩

theorem run_modelEntry (r : RemoteClient) (s : σ) :
    ∃ entry t, run w r.modelEntry s = (.ok entry, t) := by
  unfold RemoteClient.modelEntry
  split_ifs
  · exact run_attempt_ret _ _ s
  · exact ⟨none, s, rfl⟩

theorem run_isModelAvailable (r : RemoteClient) (s : σ) :
    ∃ b t, run w r.isModelAvailable s = (.ok b, t) := by
  unfold RemoteClient.isModelAvailable
  split_ifs
  · obtain ⟨entry, t, h⟩ := run_modelEntry (w := w) r s
    rw [run_bind, h]
    exact ⟨entry.isSome, t, rfl⟩
  · exact ⟨true, s, rfl⟩

theorem run_ensureModelLoaded (r : RemoteClient) (s : σ) :
    ∃ b t, run w r.ensureModelLoaded s = (.ok b, t) := by
  unfold RemoteClient.ensureModelLoaded
  split_ifs
  · obtain ⟨entry, t, h⟩ := run_modelEntry (w := w) r s
    rw [run_bind, h]
    cases entry with
    | none => exact ⟨false, t, rfl⟩
    | some entry =>
      simp only
      split_ifs
      · exact ⟨true, t, rfl⟩
      · exact run_attempt_ret _ _ t
  · exact ⟨true, s, rfl⟩

/-- No check raises, so the only thing that can is the remote leg, which is caught. -/
theorem run_withFallback {α : Type} (r : RemoteClient) (remote : HttpCoro α) (localLeg : α)
    (s : σ) :
    ((∀ t, ¬ r.Passes w s t) ∧ (run w (withFallback r remote localLeg) s).1 = .ok localLeg) ∨
      ∃ t, r.Passes w s t ∧ (run w (withFallback r remote localLeg) s).1 =
        match (run w remote t).1 with
        | .ok a => .ok a
        | .error _ => .ok localLeg := by
  unfold withFallback
  obtain ⟨b₁, s₁, h₁⟩ : ∃ b t, run w r.isEndpointHealthy s = (.ok b, t) := run_attempt_ret _ _ s
  obtain ⟨b₂, s₂, h₂⟩ := run_isModelAvailable (w := w) r s₁
  obtain ⟨b₃, s₃, h₃⟩ := run_ensureModelLoaded (w := w) r s₂
  have hpasses : (∃ t, r.Passes w s t) → b₁ = true ∧ b₂ = true ∧ b₃ = true := by
    rintro ⟨t, s₁', s₂', h₁', h₂', h₃'⟩
    obtain ⟨hb₁, rfl⟩ := Prod.mk.inj (h₁.symm.trans h₁')
    obtain ⟨hb₂, rfl⟩ := Prod.mk.inj (h₂.symm.trans h₂')
    obtain ⟨hb₃, -⟩ := Prod.mk.inj (h₃.symm.trans h₃')
    exact ⟨Except.ok.inj hb₁, Except.ok.inj hb₂, Except.ok.inj hb₃⟩
  -- the first check that fails sends the batch to the local leg
  rw [run_bind, h₁]
  cases b₁ with
  | false => exact .inl ⟨fun t h => Bool.noConfusion (hpasses ⟨t, h⟩).1, rfl⟩
  | true =>
    simp only [Bool.not_true, Bool.false_eq_true, if_false]
    rw [run_bind, h₂]
    cases b₂ with
    | false => exact .inl ⟨fun t h => Bool.noConfusion (hpasses ⟨t, h⟩).2.1, rfl⟩
    | true =>
      simp only [Bool.not_true, Bool.false_eq_true, if_false]
      rw [run_bind, h₃]
      cases b₃ with
      | false => exact .inl ⟨fun t h => Bool.noConfusion (hpasses ⟨t, h⟩).2.2, rfl⟩
      | true =>
        simp only [Bool.not_true, Bool.false_eq_true, if_false]
        refine .inr ⟨s₃, ⟨s₁, s₂, h₁, h₂, h₃⟩, ?_⟩
        rw [run_attempt]
        rcases run w remote s₃ with ⟨_ | a, t⟩ <;> rfl

theorem run_withFallback_read {α : Type} (r : RemoteClient) (op : HttpOp)
    (read : HttpResponse → Except PyExc α) (localLeg : α) (s : σ) :
    ((∀ resp a, r.Answered w s op resp → read resp ≠ .ok a) ∧
        (run w (withFallback r (awaitHttp op >>= fun resp => Coro.ofExcept (read resp)) localLeg)
          s).1 = .ok localLeg) ∨
      ∃ resp a, r.Answered w s op resp ∧ read resp = .ok a ∧
        (run w (withFallback r (awaitHttp op >>= fun resp => Coro.ofExcept (read resp)) localLeg)
          s).1 = .ok a := by
  obtain ⟨hnone, hrun⟩ | ⟨t, ht, hrun⟩ := run_withFallback (w := w) r
    (awaitHttp op >>= fun resp => Coro.ofExcept (read resp)) localLeg s
  · refine .inl ⟨?_, hrun⟩
    rintro resp a ⟨t, ht, -⟩ -
    exact hnone t ht
  · rw [hrun, run_bind, run_call]
    rcases hw : w op t with ⟨e | resp, t'⟩
    · refine .inl ⟨?_, rfl⟩
      rintro resp a ⟨u, hu, hresp⟩ -
      obtain rfl := hu.unique ht
      rw [hw] at hresp
      cases hresp
    · have hanswered : r.Answered w s op resp := ⟨t, ht, by rw [hw]⟩
      simp only [run_ofExcept]
      cases hread : read resp with
      | error e =>
        refine .inl ⟨fun resp' a h' hok => ?_, rfl⟩
        rw [h'.unique hanswered, hread] at hok
        cases hok
      | ok a => exact .inr ⟨resp, a, hanswered, hread, rfl⟩

namespace FallbackEmbeddingModel

/-- The remote leg serves the texts: it is asked, and its answer gives these rows. -/
def Served (m : FallbackEmbeddingModel) (w : World HttpOp (fun _ => HttpResponse) PyExc σ) (s : σ)
    (texts : List String) (rows : List Json) : Prop :=
  ∃ resp, m.remote.Answered w s (.postEmbeddings m.remote.name texts) resp ∧ resp.Embeds rows

structure OneVectorEach (m : FallbackEmbeddingModel)
    (w : World HttpOp (fun _ => HttpResponse) PyExc σ) (s : σ) (texts : List String)
    (vectors : List Json) : Prop where
  length : vectors.length = texts.length
  vector : ∀ v ∈ vectors, v.IsVector
  oneLeg : ((∀ rows, ¬ m.Served w s texts rows) ∧ vectors = m.localEncode texts) ∨
    m.Served w s texts vectors

variable {m : FallbackEmbeddingModel} {texts : List String} {rows : List Json}

theorem Served.unique {rows' : List Json} (h : m.Served w s texts rows)
    (h' : m.Served w s texts rows') : rows = rows' := by
  obtain ⟨resp, hresp, hrows⟩ := h
  obtain ⟨resp', hresp', hrows'⟩ := h'
  obtain rfl := hresp.unique hresp'
  exact Except.ok.inj ((embeddings_eq_ok.mpr hrows).symm.trans (embeddings_eq_ok.mpr hrows'))

/-- The batch comes from the local leg, or it is what the remote leg gave. -/
theorem run_encode (m : FallbackEmbeddingModel) (s : σ) (texts : List String) :
    ((∀ rows, ¬ m.Served w s texts rows) ∧
        (run w (m.encode texts) s).1 = .ok (m.localEncode texts)) ∨
      ∃ rows, m.Served w s texts rows ∧ (run w (m.encode texts) s).1 = .ok rows := by
  obtain ⟨hnone, hrun⟩ | ⟨resp, rows, hresp, hread, hrun⟩ := run_withFallback_read (w := w)
    m.remote (.postEmbeddings m.remote.name texts) HttpResponse.embeddings (m.localEncode texts) s
  · refine .inl ⟨?_, hrun⟩
    rintro rows ⟨resp, hresp, hrows⟩
    exact hnone resp rows hresp (embeddings_eq_ok.mpr hrows)
  · exact .inr ⟨rows, ⟨resp, hresp, embeddings_eq_ok.mp hread⟩, hrun⟩

theorem oneVectorEach_local (hnone : ∀ rows, ¬ m.Served w s texts rows) :
    m.OneVectorEach w s texts (m.localEncode texts) where
  length := by
    rw [localEncode, List.length_map, m.localModel.length_encode]
  vector v hv := by
    obtain ⟨vec, -, rfl⟩ := List.mem_map.mp hv
    refine ⟨_, rfl, fun x hx => ?_⟩
    obtain ⟨q, -, rfl⟩ := List.mem_map.mp hx
    rfl
  oneLeg := .inl ⟨hnone, rfl⟩

/-- A batch of texts gets its vectors exactly when what the remote leg serves is one vector for each
text. -/
theorem encode_right_iff (m : FallbackEmbeddingModel) (s : σ) (texts : List String) :
    (∃ vectors, (run w (m.encode texts) s).1 = .ok vectors ∧ m.OneVectorEach w s texts vectors) ↔
      ∀ rows, m.Served w s texts rows → rows.length = texts.length ∧ ∀ v ∈ rows, v.IsVector := by
  obtain ⟨hnone, hrun⟩ | ⟨rows, hrows, hrun⟩ := m.run_encode (w := w) s texts
  · rw [hrun]
    exact iff_of_true ⟨_, rfl, oneVectorEach_local hnone⟩ fun rows h => absurd h (hnone rows)
  · rw [hrun]
    constructor
    · rintro ⟨vectors, hok, h⟩ rows' hrows'
      obtain rfl := Except.ok.inj hok
      obtain rfl := hrows.unique hrows'
      exact ⟨h.length, h.vector⟩
    · intro h
      exact ⟨rows, rfl, (h rows hrows).1, (h rows hrows).2, .inr hrows⟩

end FallbackEmbeddingModel

/-- The rows give that score for the index, and no other. -/
def GivenFor (rows : List (ℤ × Json)) (i : ℕ) (v : Json) : Prop :=
  (∃ r ∈ rows, r.1 = i) ∧ ∀ r ∈ rows, r.1 = i → r.2 = v

namespace FallbackRerankModel

/-- The remote leg serves the documents: it is asked, and its answer gives these scores. -/
def Served (m : FallbackRerankModel) (w : World HttpOp (fun _ => HttpResponse) PyExc σ) (s : σ)
    (query : String) (documents : List String) (rows : List (ℤ × Json)) : Prop :=
  ∃ resp, m.remote.Answered w s (.postRerank m.remote.name query documents) resp ∧
    resp.Scores documents.length rows

/-- One score for each document: the local one, or the one the remote leg gave for its index. -/
structure OneScoreEach (m : FallbackRerankModel)
    (w : World HttpOp (fun _ => HttpResponse) PyExc σ) (s : σ) (query : String)
    (documents : List String) (scores : List Json) : Prop where
  length : scores.length = documents.length
  number : ∀ v ∈ scores, v.isNumber = true
  oneLeg : ((∀ rows, ¬ m.Served w s query documents rows) ∧
      scores = m.localScore query documents) ∨
    ∃ rows, m.Served w s query documents rows ∧ ∀ i v, scores[i]? = some v → GivenFor rows i v

variable {m : FallbackRerankModel} {query : String} {documents : List String}
  {rows : List (ℤ × Json)}

theorem Served.unique {rows' : List (ℤ × Json)} (h : m.Served w s query documents rows)
    (h' : m.Served w s query documents rows') : rows = rows' := by
  obtain ⟨resp, hresp, ⟨-, ⟨items, hitems, hread⟩, -⟩⟩ := h
  obtain ⟨resp', hresp', ⟨-, ⟨items', hitems', hread'⟩, -⟩⟩ := h'
  obtain rfl := hresp.unique hresp'
  obtain rfl := Option.some.inj (hitems.symm.trans hitems')
  exact Option.some.inj (hread.symm.trans hread')

/-- The scores come from the local leg, or each is the last that the remote leg gave for its
document. -/
theorem run_score (m : FallbackRerankModel) (s : σ) (query : String) (documents : List String) :
    ((∀ rows, ¬ m.Served w s query documents rows) ∧
        (run w (m.score query documents) s).1 = .ok (m.localScore query documents)) ∨
      ∃ rows scores, m.Served w s query documents rows ∧
        (run w (m.score query documents) s).1 = .ok scores ∧
        scores.length = documents.length ∧ ∀ i < documents.length,
          scores[i]? = (PyList.lastAt documents.length rows i <|> some (.float 0)) := by
  obtain ⟨hnone, hrun⟩ | ⟨resp, scores, hresp, hread, hrun⟩ := run_withFallback_read (w := w)
    m.remote (.postRerank m.remote.name query documents)
    (fun resp => resp.scores documents.length) (m.localScore query documents) s
  · refine .inl ⟨?_, hrun⟩
    rintro rows ⟨resp, hresp, hrows⟩
    obtain ⟨out, hout⟩ := hrows.assigned
    exact hnone resp out hresp (scores_eq_ok.mpr ⟨rows, hrows, hout⟩)
  · obtain ⟨rows, hrows, hassign⟩ := scores_eq_ok.mp hread
    obtain ⟨hlen, hitems⟩ := PyList.assign?_spec hassign
    rw [List.length_replicate] at hlen hitems
    refine .inr ⟨rows, scores, ⟨resp, hresp, hrows⟩, hrun, hlen, fun i hi => ?_⟩
    rw [hitems i hi, List.getElem?_replicate_of_lt hi]

theorem oneScoreEach_local (hnone : ∀ rows, ¬ m.Served w s query documents rows) :
    m.OneScoreEach w s query documents (m.localScore query documents) where
  length := by
    rw [localScore, List.length_map, m.localModel.length_score]
  number v hv := by
    obtain ⟨q, -, rfl⟩ := List.mem_map.mp hv
    rfl
  oneLeg := .inl ⟨hnone, rfl⟩

/-- A batch of documents gets its scores exactly when what the remote leg serves names every
document with one score, a number, and nothing that counts from the end overwrites it. -/
theorem score_right_iff (m : FallbackRerankModel) (s : σ) (query : String)
    (documents : List String) :
    (∃ scores, (run w (m.score query documents) s).1 = .ok scores ∧
        m.OneScoreEach w s query documents scores) ↔
      ∀ rows, m.Served w s query documents rows → ∀ i < documents.length,
        ∃ v, v.isNumber = true ∧ GivenFor rows i v ∧
          PyList.lastAt documents.length rows i = some v := by
  obtain ⟨hnone, hrun⟩ | ⟨rows, scores, hrows, hrun, hlen, hscores⟩ :=
    m.run_score (w := w) s query documents
  · rw [hrun]
    exact iff_of_true ⟨_, rfl, oneScoreEach_local hnone⟩ fun rows h => absurd h (hnone rows)
  · rw [hrun]
    constructor
    · rintro ⟨out, hok, h⟩ rows' hrows' i hi
      obtain rfl := Except.ok.inj hok
      obtain rfl := hrows.unique hrows'
      obtain ⟨hnone, -⟩ | ⟨rows', hrows', hgiven⟩ := h.oneLeg
      · exact absurd hrows (hnone rows)
      obtain rfl := hrows.unique hrows'
      -- some row names the document, so the default of the list is overwritten
      have hv : scores[i]? = some scores[i] := List.getElem?_eq_getElem (by omega)
      have hgiven := hgiven i _ hv
      obtain ⟨r, hr, hri⟩ := hgiven.1
      obtain ⟨v, hlast⟩ := Option.isSome_iff_exists.mp
        (PyList.isSome_lastAt hr (by rw [hri]; exact PyList.position?_natCast hi))
      have heq : some scores[i] = some v := by
        rw [← hv, hscores i hi, hlast]
        rfl
      refine ⟨scores[i], h.number _ (List.getElem_mem _), hgiven, ?_⟩
      rw [hlast, heq]
    · intro h
      have hat : ∀ i v, scores[i]? = some v → v.isNumber = true ∧ GivenFor rows i v := by
        intro i v hv
        have hi : i < documents.length := hlen ▸ (List.getElem?_eq_some_iff.mp hv).1
        obtain ⟨v', hnumber, hgiven, hlast⟩ := h rows hrows i hi
        rw [hscores i hi, hlast] at hv
        obtain rfl := Option.some.inj hv
        exact ⟨hnumber, hgiven⟩
      refine ⟨scores, rfl, hlen, fun v hv => ?_, .inr ⟨rows, hrows, fun i v hv => (hat i v hv).2⟩⟩
      obtain ⟨i, hi⟩ := List.getElem?_of_mem hv
      exact (hat i v hi).1

end FallbackRerankModel

/-- Whatever the endpoint does, a batch gets what the local leg would give it, or the same number of
results from the remote leg, exactly when what that leg serves has one for each input. -/
theorem fallback_right_iff (w : World HttpOp (fun _ => HttpResponse) PyExc σ) (s : σ) :
    (∀ (m : FallbackEmbeddingModel) texts,
      (∃ vectors, (run w (m.encode texts) s).1 = .ok vectors ∧
          m.OneVectorEach w s texts vectors) ↔
        ∀ rows, m.Served w s texts rows →
          rows.length = texts.length ∧ ∀ v ∈ rows, v.IsVector) ∧
    ∀ (m : FallbackRerankModel) query documents,
      (∃ scores, (run w (m.score query documents) s).1 = .ok scores ∧
          m.OneScoreEach w s query documents scores) ↔
        ∀ rows, m.Served w s query documents rows → ∀ i < documents.length,
          ∃ v, v.isNumber = true ∧ GivenFor rows i v ∧
            PyList.lastAt documents.length rows i = some v :=
  ⟨fun m texts => m.encode_right_iff s texts,
    fun m query documents => m.score_right_iff s query documents⟩

/-- An endpoint that has the model loaded, and answers every batch with no rows. -/
def emptyEndpoint : World HttpOp (fun _ => HttpResponse) PyExc Unit
  | .getModels, s =>
    (.ok ⟨200, some (.obj [("data", .arr [.obj [("id", .str "m"), ("state", .str "loaded")]])])⟩, s)
  | _, s => (.ok ⟨200, some (.obj [("data", .arr []), ("results", .arr [])])⟩, s)

def emptyRemote : RemoteClient := ⟨"m", true, "/models", none⟩

def zeroEncoder : LocalEncoder := ⟨fun texts => texts.map fun _ => [0], fun _ => List.length_map _⟩

/-- The text gets no vector, neither from this endpoint nor from the local leg. -/
theorem empty_rows_not_caught : ¬ ∃ vectors,
    (run emptyEndpoint ((FallbackEmbeddingModel.mk emptyRemote zeroEncoder).encode ["text"]) ()).1 =
        .ok vectors ∧
      (FallbackEmbeddingModel.mk emptyRemote zeroEncoder).OneVectorEach emptyEndpoint () ["text"]
        vectors := by
  rintro ⟨vectors, hrun, h⟩
  have hnil : (run emptyEndpoint ((FallbackEmbeddingModel.mk emptyRemote zeroEncoder).encode
      ["text"]) ()).1 = .ok [] := rfl
  obtain rfl := Except.ok.inj (hrun.symm.trans hnil)
  exact absurd h.length (by decide)

end RagPipeline
