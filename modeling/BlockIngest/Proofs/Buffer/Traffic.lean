import BlockIngest.Proofs.Buffer.Operations

/-!
# Calls to the buffer that take turns

Any number of calls may be under way at once, to put chunks in and to take the due one
out.  They go on in any order, and each may be given up as long as it has not come to
its end.  Between their steps the due chunk may be taken out by someone who does not wait
for it, and all chunks may be thrown away.

What happens to the buffer is therefore a list of acts, of which nothing is known.  Each
act lets something pass: a chunk is let in, dropped or taken out, or some are thrown
away.

## Main definitions

* `CompletedChunk.bare` — a chunk for each range.
* `Errand`, `Errand.Vain` — what a call is for, and whether it has to wait.
* `Visit` — a call under way.
* `Traffic`, `Traffic.start` — a buffer with the calls to it.
* `Passage` — what becomes of chunks in an act.
* `Traffic.act` — an act, and what comes of it.
* `Traffic.Run`, `Traffic.after` — acts one after the other, in any order.

## Main results

* `Traffic.act_cases` — **an act is one of those listed.**
-/

namespace BlockIngest

/-- The chunk of a range whose blocks hold nothing. -/
def CompletedChunk.bare (r : ChunkRange) : CompletedChunk where
  range := r
  blocks := r.heights.map fun h => ⟨⟨h, "", "", "", [], .null⟩, []⟩
  heights_eq := by simp [FetchedBlock.height, Function.comp_def]

/-- What a call to the buffer is for. -/
inductive Errand where
  /-- A chunk is put in. -/
  | push (d : CompletedChunk)
  /-- The due chunk is taken out. -/
  | pop

/-- Whether a call that looks at the buffer looks in vain: its chunk is not due and there is
no room for it, or the due chunk is not there. -/
def Errand.Vain (b : Buffer) : Errand → Prop
  | .push d => b.nextCommit < d.range.first ∧ b.capacity ≤ b.size
  | .pop => b.chunks.find? b.nextCommit = none

/-- A call under way. -/
structure Visit where
  /-- What it is for. -/
  errand : Errand
  /-- Where it stands. -/
  phase : CallPhase

/-- A buffer with the calls to it.  Each call has a number, under which it listens. -/
structure Traffic where
  /-- The buffer. -/
  buffer : Buffer
  /-- The calls under way. -/
  visits : HeightMap Visit

/-- What becomes of chunks in an act. -/
inductive Passage where
  /-- Nothing. -/
  | none
  /-- A chunk is let in, in the place of another one if there was one. -/
  | admitted (d : CompletedChunk) (displaced : Option CompletedChunk)
  /-- A chunk is dropped instead of being let in. -/
  | dropped (d : CompletedChunk)
  /-- A chunk is taken out. -/
  | popped (d : CompletedChunk)
  /-- Chunks are thrown away. -/
  | cleared (ds : List CompletedChunk)

namespace Passage

/-- The chunk that was let in. -/
def entered : Passage → List CompletedChunk
  | .admitted d _ => [d]
  | _ => []

/-- The chunk whose place another one took. -/
def displaced : Passage → List CompletedChunk
  | .admitted _ e => e.toList
  | _ => []

/-- The chunk that was taken out. -/
def takenOut : Passage → List CompletedChunk
  | .popped d => [d]
  | _ => []

/-- The chunks that were thrown away. -/
def thrownAway : Passage → List CompletedChunk
  | .cleared ds => ds
  | _ => []

end Passage

namespace Traffic

/-- An empty buffer to which there are no calls yet. -/
def start (nextCommit capacity : ℕ) (pos : 0 < capacity) : Traffic :=
  ⟨.start nextCommit capacity pos, .empty⟩

/-! ### Acts -/

/-- What happens to a buffer. -/
inductive Act where
  /-- A call is made, under a number that is free. -/
  | call (i : ℕ) (e : Errand)
  /-- A call goes on. -/
  | turn (i : ℕ)
  /-- A call is given up. -/
  | cancel (i : ℕ)
  /-- The due chunk is taken out, if it is there, by someone who does not wait for it. -/
  | tryPop
  /-- All chunks are thrown away. -/
  | clear

/-- The call with a number takes a step. -/
def goOn (x : Traffic) (i : ℕ) : Visit → Option (Passage × Traffic)
  | ⟨.push d, phase⟩ =>
      match x.buffer.stepPush (.visitor i) d phase with
      | some (.goOn phase, b) => some (.none, ⟨b, x.visits.insert i ⟨.push d, phase⟩⟩)
      | some (.finished true, b) =>
          some (.admitted d (x.buffer.chunks.find? d.range.first), ⟨b, x.visits.erase i⟩)
      | some (.finished false, b) => some (.dropped d, ⟨b, x.visits.erase i⟩)
      | none => none
  | ⟨.pop, phase⟩ =>
      match x.buffer.stepPop (.visitor i) phase with
      | some (.goOn phase, b) => some (.none, ⟨b, x.visits.insert i ⟨.pop, phase⟩⟩)
      | some (.finished d, b) => some (.popped d, ⟨b, x.visits.erase i⟩)
      | none => none

/-- What becomes of chunks in an act, and how things stand after it; nothing if the call
cannot go on. -/
def act (x : Traffic) : Act → Option (Passage × Traffic)
  | .call i e =>
      match x.visits.find? i with
      | none => some (.none, { x with visits := x.visits.insert i ⟨e, .fresh⟩ })
      | some _ => none
  | .turn i => (x.visits.find? i).bind (x.goOn i)
  | .cancel i =>
      match x.visits.find? i with
      | some _ => some (.none, ⟨x.buffer.forget (.visitor i), x.visits.erase i⟩)
      | none => none
  | .tryPop =>
      match x.buffer.take with
      | (some d, b) => some (.popped d, { x with buffer := b })
      | (none, b) => some (.none, { x with buffer := b })
  | .clear => some (.cleared x.buffer.chunks.values, { x with buffer := x.buffer.clear.2 })

/-- Acts one after the other, in any order, of which each is allowed: what has become of
chunks in each of them, and how things stand. -/
inductive Run (allowed : Act → Prop) (x₀ : Traffic) : List Passage → Traffic → Prop
  /-- Nothing has happened. -/
  | start : Run allowed x₀ [] x₀
  /-- Something more happens. -/
  | act {ps : List Passage} {p : Passage} {x x' : Traffic} {a : Act} (hrun : Run allowed x₀ ps x)
      (hallowed : allowed a) (hact : x.act a = some (p, x')) : Run allowed x₀ (ps ++ [p]) x'

/-- What becomes of chunks in acts, one after the other, and how things stand after them. -/
def after (x : Traffic) : List Act → Option (List Passage × Traffic)
  | [] => some ([], x)
  | a :: as => do
      let (p, x') ← x.act a
      let (ps, y) ← x'.after as
      return (p :: ps, y)

theorem Run.after {allowed : Act → Prop} {x₀ x y : Traffic} {ps qs : List Passage} {as : List Act}
    (hrun : Run allowed x₀ ps x) (hallowed : ∀ a ∈ as, allowed a)
    (hafter : x.after as = some (qs, y)) : Run allowed x₀ (ps ++ qs) y := by
  induction as generalizing x ps qs with
  | nil =>
    cases hafter
    rwa [List.append_nil]
  | cons a as ih =>
    obtain ⟨⟨p, x'⟩, hact, hlater⟩ := Option.bind_eq_some_iff.mp hafter
    obtain ⟨⟨qs', y'⟩, hafter, hpair⟩ := Option.bind_eq_some_iff.mp hlater
    cases hpair
    have hnext := hrun.act (hallowed a List.mem_cons_self) hact
    rw [← List.singleton_append, ← List.append_assoc]
    exact ih hnext (fun b hb => hallowed b (List.mem_cons_of_mem a hb)) hafter

/-! ### An act is one of few -/

/-- The acts, each with all that it has checked. -/
inductive Acts (x : Traffic) : Act → Passage → Traffic → Prop
  /-- A call is made. -/
  | called {i : ℕ} {e : Errand} (hfree : x.visits.find? i = none) :
      Acts x (.call i e) .none { x with visits := x.visits.insert i ⟨e, .fresh⟩ }
  /-- A call begins to listen. -/
  | listened {i : ℕ} {e : Errand} (hvisit : x.visits.find? i = some ⟨e, .fresh⟩) :
      Acts x (.turn i) .none
        ⟨x.buffer.listen (.visitor i), x.visits.insert i ⟨e, .looking⟩⟩
  /-- A chunk is let in. -/
  | admitted {i : ℕ} {d : CompletedChunk} (hvisit : x.visits.find? i = some ⟨.push d, .looking⟩)
      (hadmission : x.buffer.admission d = .stored) :
      Acts x (.turn i) (.admitted d (x.buffer.chunks.find? d.range.first))
        ⟨({ x.buffer with chunks := x.buffer.chunks.insert d.range.first d }.announce).forget
          (.visitor i), x.visits.erase i⟩
  /-- A chunk is dropped because it lies below what is due. -/
  | dropped {i : ℕ} {d : CompletedChunk} (hvisit : x.visits.find? i = some ⟨.push d, .looking⟩)
      (hadmission : x.buffer.admission d = .stale) :
      Acts x (.turn i) (.dropped d) ⟨x.buffer.forget (.visitor i), x.visits.erase i⟩
  /-- The due chunk is taken out. -/
  | popped {i : ℕ} {d : CompletedChunk} (hvisit : x.visits.find? i = some ⟨.pop, .looking⟩)
      (hfind : x.buffer.chunks.find? x.buffer.nextCommit = some d) :
      Acts x (.turn i) (.popped d)
        ⟨{ x.buffer with
            chunks := x.buffer.chunks.erase x.buffer.nextCommit
            nextCommit := Height.next d.range.last }.announce, x.visits.erase i⟩
  /-- A call has looked in vain. -/
  | missed {i : ℕ} {e : Errand} (hvisit : x.visits.find? i = some ⟨e, .looking⟩)
      (hvain : e.Vain x.buffer) :
      Acts x (.turn i) .none { x with visits := x.visits.insert i ⟨e, .waiting⟩ }
  /-- A call is told that the buffer has changed. -/
  | woke {i : ℕ} {e : Errand} (hvisit : x.visits.find? i = some ⟨e, .waiting⟩)
      (htold : ¬ x.buffer.isListening (.visitor i)) :
      Acts x (.turn i) .none { x with visits := x.visits.insert i ⟨e, .fresh⟩ }
  /-- A call is given up. -/
  | cancelled {i : ℕ} {v : Visit} (hvisit : x.visits.find? i = some v) :
      Acts x (.cancel i) .none ⟨x.buffer.forget (.visitor i), x.visits.erase i⟩
  /-- The due chunk is taken out by someone who does not wait for it. -/
  | tried {d : CompletedChunk} (hfind : x.buffer.chunks.find? x.buffer.nextCommit = some d) :
      Acts x .tryPop (.popped d) { x with buffer := { x.buffer with
        chunks := x.buffer.chunks.erase x.buffer.nextCommit
        nextCommit := Height.next d.range.last } }
  /-- Someone who does not wait for the due chunk finds that it is not there. -/
  | passed (hfind : x.buffer.chunks.find? x.buffer.nextCommit = none) : Acts x .tryPop .none x
  /-- All chunks are thrown away. -/
  | cleared : Acts x .clear (.cleared x.buffer.chunks.values)
      { x with buffer := { x.buffer with chunks := .empty }.announce }

variable {x x' : Traffic} {a : Act} {p : Passage} {i : ℕ} {d : CompletedChunk} {phase : CallPhase}

theorem acts_of_push (hvisit : x.visits.find? i = some ⟨.push d, phase⟩)
    (h : x.goOn i ⟨.push d, phase⟩ = some (p, x')) : x.Acts (.turn i) p x' := by
  cases phase with
  | fresh =>
    cases h
    exact .listened hvisit
  | looking =>
    simp only [goOn, Buffer.stepPush, Buffer.offer] at h
    rcases hadmission : x.buffer.admission d with _ | _ | _
    · simp only [hadmission] at h
      cases h
      exact .dropped hvisit hadmission
    · simp only [hadmission] at h
      cases h
      exact .admitted hvisit hadmission
    · simp only [hadmission] at h
      cases h
      exact .missed hvisit (Buffer.admission_eq_full.mp hadmission)
  | waiting =>
    by_cases htold : x.buffer.isListening (.visitor i)
    · simp only [goOn, Buffer.stepPush, htold, if_true] at h
      cases h
    · simp only [goOn, Buffer.stepPush, htold] at h
      cases h
      exact .woke hvisit htold

theorem acts_of_pop (hvisit : x.visits.find? i = some ⟨.pop, phase⟩)
    (h : x.goOn i ⟨.pop, phase⟩ = some (p, x')) : x.Acts (.turn i) p x' := by
  cases phase with
  | fresh =>
    cases h
    exact .listened hvisit
  | looking =>
    simp only [goOn, Buffer.stepPop, Buffer.take] at h
    rcases hfind : x.buffer.chunks.find? x.buffer.nextCommit with _ | d
    · simp only [hfind] at h
      cases h
      exact .missed hvisit hfind
    · simp only [hfind] at h
      cases h
      exact .popped hvisit hfind
  | waiting =>
    by_cases htold : x.buffer.isListening (.visitor i)
    · simp only [goOn, Buffer.stepPop, htold, if_true] at h
      cases h
    · simp only [goOn, Buffer.stepPop, htold] at h
      cases h
      exact .woke hvisit htold

/-- **An act is one of those listed.** -/
theorem act_cases (h : x.act a = some (p, x')) : x.Acts a p x' := by
  cases a with
  | call i e =>
    rcases hfree : x.visits.find? i with _ | v
    · simp only [act, hfree] at h
      cases h
      exact .called hfree
    · simp only [act, hfree] at h
      cases h
  | turn i =>
    obtain ⟨⟨_ | _, phase⟩, hvisit, hstep⟩ := Option.bind_eq_some_iff.mp h
    · exact acts_of_push hvisit hstep
    · exact acts_of_pop hvisit hstep
  | cancel i =>
    rcases hvisit : x.visits.find? i with _ | v
    · simp only [act, hvisit] at h
      cases h
    · simp only [act, hvisit] at h
      cases h
      exact .cancelled hvisit
  | tryPop =>
    rcases hfind : x.buffer.chunks.find? x.buffer.nextCommit with _ | d
    · simp only [act, Buffer.take, hfind] at h
      cases h
      exact .passed hfind
    · simp only [act, Buffer.take, hfind] at h
      cases h
      exact .tried hfind
  | clear =>
    cases h
    exact .cleared

/-! ### Calls before and after an act -/

/-- A call that is under way after an act was so before it, perhaps in another phase, or
was made in it. -/
theorem visit_of_act (hact : x.Acts a p x') {e : Errand}
    (hvisit : x'.visits.find? i = some ⟨e, phase⟩) :
    (∃ before, x.visits.find? i = some ⟨e, before⟩) ∨ a = .call i e := by
  cases hact with
  | called =>
    rcases HeightMap.of_find?_insert hvisit with ⟨rfl, heq⟩ | ⟨-, hold⟩
    · cases heq
      exact Or.inr rfl
    · exact Or.inl ⟨_, hold⟩
  | listened hbefore | missed hbefore | woke hbefore =>
    rcases HeightMap.of_find?_insert hvisit with ⟨rfl, heq⟩ | ⟨-, hold⟩
    · cases heq
      exact Or.inl ⟨_, hbefore⟩
    · exact Or.inl ⟨_, hold⟩
  | admitted | dropped | popped | cancelled =>
    exact Or.inl ⟨_, (HeightMap.of_find?_erase hvisit).2⟩
  | tried | passed | cleared => exact Or.inl ⟨_, hvisit⟩

end Traffic
end BlockIngest
