import HostScript.Optimize.Cached
import HostScript.Proofs.Cache
import HostScript.Proofs.Numeral
import HostScript.Proofs.Optimize.HotLoop

/-!
# Optimizing again

A pipeline may be asked for the same script once more, or for the script that it gave.
-/

/-!
## Cached answers and fresh answers

Requests to one pipeline share an entry of its cache when their scripts differ in cosmetic white
space only and their levels are the same. The later ones are answered with what the first of them
that succeeded computed. All answers of a pipeline are therefore fresh if and only if requests that
share an entry have the same fresh answer. That is not always so: white space that is cosmetic at
the end of a line of code is part of the value at the end of a line of a template.
-/

namespace HostScript.Optimize

/-- A request to optimize a script. -/
structure Request where
  now : Scalar
  level : Int
  code : Text

namespace Request

/-- The key of a request. -/
def key (r : Request) : Text := cacheKey r.code r.level

/-- The text that the key of a request is the digest of. -/
def payload (r : Request) : Text :=
  fingerprintPayload r.code (.ofPairs [("stage", "optimize"), ("level", .int r.level)])

/-- A request for a level that exists. -/
def IsValid (r : Request) : Prop := 0 ≤ r.level ∧ r.level ≤ maxLevel

end Request

/-- A pipeline that has not been used. -/
def Pipeline.new : Pipeline := { name := "optimize", policy := .unbounded }

/-- The answers of a pipeline to requests that are made one after the other. -/
def Pipeline.answers (accepts : Acceptance) : Pipeline → List Request →
    List (Outcome (Artifact × Bool))
  | _, [] => []
  | p, r :: rs =>
    let (answer, p) := p.optimize accepts r.now r.level r.code
    answer :: Pipeline.answers accepts p rs

/-- The script that a new pipeline answers a request with. -/
def fresh (accepts : Acceptance) (r : Request) : Outcome Artifact :=
  (Pipeline.new.optimize accepts r.now r.level r.code).1.map Prod.fst

/-- An answer that holds the fresh script, if it holds one. -/
def IsFresh (accepts : Acceptance) (answer : Outcome (Artifact × Bool)) (r : Request) : Prop :=
  ∀ a hit, answer = .ok (a, hit) → fresh accepts r = .ok a

variable {accepts : Acceptance}

/-- The levels that exist are those that have steps. -/
theorem Request.isValid_iff (r : Request) : r.IsValid ↔ ∃ ps, passesFor r.level = .ok ps := by
  rw [IsValid, passesFor]
  split
  · rename_i h
    simp only [Bool.and_eq_true, decide_eq_true_eq] at h
    exact iff_of_true h ⟨_, rfl⟩
  · rename_i h
    simp only [Bool.and_eq_true, decide_eq_true_eq] at h
    exact iff_of_false h (by simp)

/-- A request for a level that does not exist fails and changes nothing. -/
theorem Pipeline.optimize_of_not_isValid (accepts : Acceptance) (p : Pipeline) {r : Request}
    (hr : ¬ r.IsValid) :
    ∃ f, p.optimize accepts r.now r.level r.code = (.error f, p) ∧
      fresh accepts r = .error f := by
  rw [r.isValid_iff] at hr
  cases hps : passesFor r.level with
  | ok ps => exact absurd ⟨ps, hps⟩ hr
  | error f => exact ⟨f, by rw [optimize, hps], by rw [fresh, optimize, hps]; rfl⟩

/-- A new pipeline runs the steps of the level. -/
theorem fresh_eq_runPasses {r : Request} {ps : List Pass} (hps : passesFor r.level = .ok ps) :
    fresh accepts r = runPasses accepts ps r.level r.code := by
  have hnew : Pipeline.new.policy = .unbounded := rfl
  obtain ⟨d, hrun, -, -⟩ := Cache.getOrCompute_spec hnew r.now (cacheKey r.code r.level)
    fun _ => runPasses accepts ps r.level r.code
  rw [Cache.value?_of_entries_eq_nil rfl] at hrun
  rw [fresh, Pipeline.optimize, hps]
  dsimp only
  rw [hrun]
  cases runPasses accepts ps r.level r.code <;> rfl

/-- A new pipeline optimizes the script. -/
theorem fresh_eq_optimize (accepts : Acceptance) (r : Request) :
    fresh accepts r = Optimize.optimize accepts r.level r.code := by
  rw [Optimize.optimize]
  cases hps : passesFor r.level with
  | ok ps => exact fresh_eq_runPasses hps
  | error f => rw [fresh, Pipeline.optimize, hps]; rfl

/-- A request for a known script is answered with it, and any other with the fresh answer, which is
known from then on. -/
theorem Pipeline.optimize_of_isValid (accepts : Acceptance) {p : Pipeline}
    (hp : p.policy = .unbounded) {r : Request} (hr : r.IsValid) :
    ∃ q, p.optimize accepts r.now r.level r.code =
        ((p.value? r.key).elim ((fresh accepts r).map (·, false)) fun a => .ok (a, true), q) ∧
      q.policy = .unbounded ∧
      ∀ k, q.value? k =
        if k == r.key then (p.value? r.key).or (fresh accepts r).toOption else p.value? k := by
  obtain ⟨ps, hps⟩ := r.isValid_iff.mp hr
  rw [fresh_eq_runPasses hps, optimize, hps]
  exact Cache.getOrCompute_spec hp r.now r.key fun _ => runPasses accepts ps r.level r.code

/-- Two requests of which the second may be answered with the result of the first. -/
def Agree (accepts : Acceptance) (q r : Request) : Prop :=
  q.key = r.key → r.IsValid → ∀ a, fresh accepts q = .ok a → fresh accepts r = .ok a

/-- A request agrees with what a pipeline knows. -/
def Pipeline.AgreesWith (accepts : Acceptance) (p : Pipeline) (r : Request) : Prop :=
  r.IsValid → ∀ a, p.value? r.key = some a → fresh accepts r = .ok a

/-- Where the answer to a request was known, the next requests agree with what is known and with it
exactly when they did so before. -/
theorem Pipeline.agreesWith_of_known {p q : Pipeline} {r : Request} {a : Artifact}
    (hv : p.value? r.key = some a)
    (hknown : ∀ k, q.value? k =
      if k == r.key then (p.value? r.key).or (fresh accepts r).toOption else p.value? k)
    (s : Request) : q.AgreesWith accepts s ↔ p.AgreesWith accepts s := by
  have hsame : q.value? s.key = p.value? s.key := by
    rw [hknown]
    by_cases hs : s.key = r.key <;> simp [hs, hv]
  rw [AgreesWith, AgreesWith, hsame]

/-- Where the answer to a request was not known, the next requests agree with what is known exactly
when they did so before and agree with the request. -/
theorem Pipeline.agreesWith_of_unknown {p q : Pipeline} {r : Request}
    (hv : p.value? r.key = none)
    (hknown : ∀ k, q.value? k =
      if k == r.key then (p.value? r.key).or (fresh accepts r).toOption else p.value? k)
    (s : Request) :
    q.AgreesWith accepts s ↔ p.AgreesWith accepts s ∧ Agree accepts r s := by
  by_cases hs : s.key = r.key
  · have hold : p.AgreesWith accepts s := by
      intro _ a ha
      rw [hs, hv] at ha
      cases ha
    have hnew : ∀ a, q.value? s.key = some a ↔ fresh accepts r = .ok a := by
      intro a
      rw [hknown, hv, hs]
      cases fresh accepts r <;> simp [Except.toOption]
    rw [and_iff_right hold, AgreesWith, Agree]
    simp only [hnew]
    simp only [hs, true_imp_iff]
  · have hagree : Agree accepts r s := fun hkey => absurd hkey.symm hs
    have hsame : q.value? s.key = p.value? s.key := by
      simp [hknown, hs]
    rw [and_iff_left hagree, AgreesWith, AgreesWith, hsame]

/-- The answers of a pipeline are the fresh ones exactly when the requests agree with what it knows
and with each other. -/
theorem Pipeline.forall_isFresh_iff {p : Pipeline} (hp : p.policy = .unbounded)
    (rs : List Request) :
    List.Forall₂ (IsFresh accepts) (p.answers accepts rs) rs ↔
      (∀ r ∈ rs, p.AgreesWith accepts r) ∧ rs.Pairwise (Agree accepts) := by
  induction rs generalizing p with
  | nil => simp [answers]
  | cons r rs ih =>
    rw [answers, List.pairwise_cons, List.forall_mem_cons]
    by_cases hr : r.IsValid
    · obtain ⟨q, hstep, hq, hknown⟩ := optimize_of_isValid accepts hp hr
      rw [hstep]
      dsimp only
      rw [List.forall₂_cons, ih hq]
      cases hv : p.value? r.key with
      | some a =>
        have hhead : IsFresh accepts (.ok (a, true)) r ↔ fresh accepts r = .ok a :=
          ⟨fun hf => hf a true rfl, fun hf b hit hb => by cases hb; exact hf⟩
        simp only [agreesWith_of_known hv hknown, Option.elim_some, hhead]
        constructor
        · rintro ⟨hfresh, hrest, hpairs⟩
          refine ⟨⟨fun _ b hb => ?_, hrest⟩, fun s hs hkey hvalid b hb => ?_, hpairs⟩
          · rw [hv] at hb
            cases hb
            exact hfresh
          · rw [hfresh] at hb
            cases hb
            exact hrest s hs hvalid a (hkey ▸ hv)
        · rintro ⟨⟨hagree, hrest⟩, -, hpairs⟩
          exact ⟨hagree hr a hv, hrest, hpairs⟩
      | none =>
        have hhead : IsFresh accepts ((fresh accepts r).map (·, false)) r := by
          intro a hit ha
          cases hf : fresh accepts r <;> rw [hf] at ha <;> cases ha
          rfl
        have hunknown : p.AgreesWith accepts r := by
          intro _ a ha
          rw [hv] at ha
          cases ha
        simp only [agreesWith_of_unknown hv hknown, Option.elim_none, hhead, hunknown, true_and,
          forall₂_and, and_assoc]
    · obtain ⟨f, hstep, hfresh⟩ := p.optimize_of_not_isValid accepts hr
      rw [hstep]
      dsimp only
      rw [List.forall₂_cons, ih hp]
      have hfails : IsFresh accepts (.error f) r := by
        intro a hit ha
        cases ha
      have hhead : p.AgreesWith accepts r := fun hv => absurd hv hr
      have hpairs : ∀ s ∈ rs, Agree accepts r s := by
        intro s _ _ _ a ha
        rw [hfresh] at ha
        cases ha
      rw [and_iff_right hhead, and_iff_right hpairs, and_iff_right hfails]

/-- What stands before the level in the text of a key. -/
def payloadHead : Text := "\x7b\"options\": \x7b\"level\": "

/-- What stands between the comma after the level and the script in the text of a key. -/
def payloadMiddle : Text := " \"stage\": \"optimize\"\x7d, \"source\": "

/-- Two members in descending order of their names change places. -/
theorem sortNames_pair {a b : Text} (h : Text.le a b = false) (v w : Json) :
    Json.sortNames (.obj [(a, v), (b, w)]) = .obj [(b, w.sortNames), (a, v.sortNames)] := by
  simp [Json.sortNames, Json.sortNamesMembers, List.mergeSort,
    List.MergeSort.Internal.splitInTwo, h]

/-- An object of two members on one line. -/
theorem line_pair (a b : Text) (v w : Json) :
    Json.line (.obj [(a, v), (b, w)]) =
      '\x7b' :: (Json.quote a ++ ':' :: ' ' :: v.line) ++
        ',' :: ' ' :: (Json.quote b ++ ':' :: ' ' :: w.line) ++ ['\x7d'] := by
  simp [Json.line, Json.lineMembers, Text.join]

/-- The text of a key holds the level and the script in its canonical form. -/
theorem Request.payload_eq (r : Request) :
    r.payload = payloadHead ++
      (Text.ofInt r.level ++
        ',' :: (payloadMiddle ++ (Json.quote (canonicalize r.code) ++ ['\x7d']))) := by
  have hsource : Text.le "source" "options" = false := by decide
  have hstage : Text.le "stage" "level" = false := by decide
  have hhead : payloadHead = '\x7b' :: (Json.quote "options" ++
      ':' :: ' ' :: '\x7b' :: (Json.quote "level" ++ [':', ' '])) := by decide
  have hmiddle : payloadMiddle = ' ' :: (Json.quote "stage" ++
      ':' :: ' ' :: (Json.quote "optimize" ++ '\x7d' :: ',' :: ' ' ::
        (Json.quote "source" ++ [':', ' ']))) := by decide
  change (Json.sortNames (.obj [("source", .str (canonicalize r.code)),
    ("options", .obj [("stage", "optimize"), ("level", .int r.level)])])).line = _
  rw [sortNames_pair hsource, sortNames_pair hstage, line_pair, line_pair, hhead, hmiddle]
  simp only [Json.sortNames, Json.line, List.append_assoc, List.cons_append, List.nil_append]

/-- Requests have the same text of a key exactly when their levels are the same and their scripts
are written the same in canonical form. -/
theorem Request.payload_eq_iff (q r : Request) :
    q.payload = r.payload ↔
      q.level = r.level ∧ Json.quote (canonicalize q.code) = Json.quote (canonicalize r.code) := by
  rw [payload_eq, payload_eq, List.append_cancel_left_eq, ofInt_append_comma_inj,
    List.append_cancel_left_eq, List.append_cancel_right_eq]

/-- Requests that share an entry of the cache: the level is the same, and so is the script up to
cosmetic white space. -/
structure SameEntry (q r : Request) : Prop where
  level : q.level = r.level
  code : Json.quote (canonicalize q.code) = Json.quote (canonicalize r.code)

/-- No two of the requests have different texts with the same digest. -/
def CollisionFree (rs : List Request) : Prop :=
  ∀ q ∈ rs, ∀ r ∈ rs, q.key = r.key → q.payload = r.payload

/-- Requests with the same text of a key have the same key. -/
theorem Request.key_eq_of_payload_eq {q r : Request} (h : q.payload = r.payload) :
    q.key = r.key := by
  have hkey (s : Request) :
      s.key = Digest.sha256 (s.payload.map fun c => UInt8.ofNat c.toNat) := rfl
  rw [hkey, hkey, h]

/-- Without collisions, requests have the same key exactly when they share an entry. -/
theorem CollisionFree.key_eq_iff {rs : List Request} (h : CollisionFree rs) {q r : Request}
    (hq : q ∈ rs) (hr : r ∈ rs) : q.key = r.key ↔ SameEntry q r := by
  constructor
  · intro hkey
    obtain ⟨hlevel, hcode⟩ := (q.payload_eq_iff r).mp (h q hq r hr hkey)
    exact ⟨hlevel, hcode⟩
  · rintro ⟨hlevel, hcode⟩
    exact Request.key_eq_of_payload_eq ((q.payload_eq_iff r).mpr ⟨hlevel, hcode⟩)

/-- The fresh answer to a request succeeds only if its level exists. -/
theorem isValid_of_fresh_eq_ok {r : Request} {a : Artifact} (h : fresh accepts r = .ok a) :
    r.IsValid := by
  by_contra hr
  obtain ⟨f, -, hf⟩ := Pipeline.new.optimize_of_not_isValid accepts hr
  rw [hf] at h
  cases h

/-- All scripts that one pipeline answers with are fresh if and only if any two requests that share
an entry of its cache have the same fresh answer, once the first of them succeeds. -/
theorem cached_eq_fresh_iff (accepts : Acceptance) {rs : List Request} (h : CollisionFree rs) :
    List.Forall₂ (IsFresh accepts) (Pipeline.new.answers accepts rs) rs ↔
      rs.Pairwise fun q r =>
        SameEntry q r → ∀ a, fresh accepts q = .ok a → fresh accepts r = .ok a := by
  have hnew : ∀ r ∈ rs, Pipeline.new.AgreesWith accepts r := by
    intro r _ _ a ha
    rw [Cache.value?_of_entries_eq_nil rfl] at ha
    cases ha
  rw [Pipeline.forall_isFresh_iff rfl, and_iff_right hnew]
  apply List.Pairwise.iff_of_mem
  intro q r hq hr
  rw [Agree, h.key_eq_iff hq hr]
  constructor
  · intro hagree hsame a ha
    refine hagree hsame ?_ a ha
    have hvalid := isValid_of_fresh_eq_ok ha
    rwa [Request.IsValid, hsame.level] at hvalid
  · intro hagree hsame _ a ha
    exact hagree hsame a ha

/-- A script at two levels, and at the first level again. -/
def repeatedRequests : List Request := [⟨.int 0, 0, "a"⟩, ⟨.int 1, 1, "a"⟩, ⟨.int 2, 0, "a"⟩]

/-- The two levels have different keys. -/
theorem repeatedRequests_collisionFree : CollisionFree repeatedRequests := by
  have hkey (level : Int) : cacheKey "a" level = Digest.sha256 ((payloadHead ++ (Text.ofInt level ++
      ',' :: (payloadMiddle ++ (Json.quote (canonicalize "a") ++ ['\x7d'])))).map
        fun c => UInt8.ofNat c.toNat) := by
    rw [← Request.payload_eq ⟨.int 0, level, "a"⟩]
    rfl
  have hne : cacheKey "a" 0 ≠ cacheKey "a" 1 := by
    rw [hkey, hkey]
    decide +kernel
  have hshape : ∀ r ∈ repeatedRequests, r.code = "a" ∧ (r.level = 0 ∨ r.level = 1) := by
    simp [repeatedRequests]
  intro q hq r hr h
  obtain ⟨hqc, hql⟩ := hshape q hq
  obtain ⟨hrc, hrl⟩ := hshape r hr
  rw [Request.key, Request.key, hqc, hrc] at h
  rw [Request.payload_eq_iff, hqc, hrc]
  refine ⟨?_, rfl⟩
  rcases hql with hql | hql <;> rcases hrl with hrl | hrl <;> rw [hql, hrl] at h ⊢
  · exact absurd h hne
  · exact absurd h.symm hne

/-- Requests for one script at different levels, or twice at the same, are answered afresh. -/
theorem cached_eq_fresh_repeated :
    CollisionFree repeatedRequests ∧
      List.Forall₂ (IsFresh fun _ => .ok ())
        (Pipeline.new.answers (fun _ => .ok ()) repeatedRequests) repeatedRequests := by
  refine ⟨repeatedRequests_collisionFree,
    (cached_eq_fresh_iff _ repeatedRequests_collisionFree).mpr ?_⟩
  have hshape : ∀ r ∈ repeatedRequests, r.code = "a" := by
    simp [repeatedRequests]
  apply List.pairwise_of_forall_mem_list
  intro q hq r hr hs a ha
  rw [fresh_eq_optimize] at ha ⊢
  rwa [hshape r hr, ← hs.level, ← hshape q hq]

/-- A template with white space at the end of a line. -/
def spacedTemplate : Request := ⟨.int 0, 0, "var a = `x  \ny`;"⟩

/-- The same template without that white space. -/
def plainTemplate : Request := ⟨.int 1, 0, "var a = `x\ny`;"⟩

/-- The second of two scripts that differ inside a template is answered with the first. -/
theorem cached_ne_fresh_template :
    ¬ List.Forall₂ (IsFresh fun _ => .ok ())
        (Pipeline.new.answers (fun _ => .ok ()) [spacedTemplate, plainTemplate])
        [spacedTemplate, plainTemplate] := by
  rw [Pipeline.forall_isFresh_iff rfl]
  rintro ⟨-, hpairs⟩
  have hagree := (List.pairwise_cons.mp hpairs).1 _ (List.mem_singleton_self _)
  have hkey : spacedTemplate.key = plainTemplate.key :=
    Request.key_eq_of_payload_eq ((Request.payload_eq_iff _ _).mpr ⟨rfl, by decide⟩)
  have hfresh (r : Request) (hr : r.level = 0) :
      fresh (fun _ => .ok ()) r = .ok ⟨r.code, 0, [], []⟩ := by
    rw [fresh_eq_optimize, hr]
    rfl
  have hcode := hagree hkey ⟨by decide, by decide⟩ _ (hfresh spacedTemplate rfl)
  rw [hfresh plainTemplate rfl] at hcode
  have hne : plainTemplate.code ≠ spacedTemplate.code := by decide
  exact hne (congrArg Artifact.code (Except.ok.inj hcode))

end HostScript.Optimize

/-!
## Optimizing a script twice

Optimizing strips the hints off a script, rewrites it in a bounded number of rounds, marks its hot
loops and puts a header before it. Where the rewritten script itself opens no hint, all that is put
on comes off again, so a second run goes on with the rounds where the first one stopped. It then
gives the same script if and only if twice as many rounds give what the bounded number gives. A
hint inside a literal breaks this: it comes off a little more with every run.
-/

namespace HostScript.Optimize

open Script

/-- The steps of a level that run in rounds. -/
def workingSteps (level : Int) : List ScriptStep :=
  ((passes.filter fun p => p.level ≤ level).filter
    fun p => !(p.step.name == "loop-recognition")).map (·.step)

/-- A script after one round at a level. -/
def round (level : Int) (t : Text) : Outcome Text :=
  Prod.fst <$> ScriptStep.applyAll (workingSteps level) t

/-- A script after the rounds at a level, at most as many as given. -/
def rewrite (level : Int) (rounds : Nat) (t : Text) : Outcome Text :=
  Prod.fst <$> settle (workingSteps level) rounds t

/-- A rewritten script with its hot loops marked, at the levels that mark them. -/
def finish (level : Int) (t : Text) : Outcome Text :=
  if 2 ≤ level then loopRecognition t else .ok t

/-- A script in which nothing is taken for a hint and, where loops are marked, nothing for a hidden
span. -/
structure IsTransparent (level : Int) (t : Text) : Prop where
  opensNoHint : ¬ hintHead <:+: t
  restores : 2 ≤ level → (mask .all t).restore = .ok t

/-- The rounds end with one that changes nothing. -/
theorem rewrite_succ (level : Int) (rounds : Nat) (t : Text) :
    rewrite level (rounds + 1) t =
      round level t >>= fun new => if new = t then .ok t else rewrite level rounds new := by
  rw [rewrite, round, settle]
  cases ScriptStep.applyAll (workingSteps level) t with
  | error f => rfl
  | ok result =>
    obtain ⟨new, changed⟩ := result
    change Prod.fst <$> (if new == t then _ else _) = if new = t then _ else _
    by_cases hnew : new = t
    · rw [if_pos (beq_iff_eq.mpr hnew), if_pos hnew, ← hnew]
      rfl
    · rw [if_neg (mt beq_iff_eq.mp hnew), if_neg hnew, rewrite]
      cases settle (workingSteps level) rounds new <;> rfl

/-- A script that a round leaves alone stays as it is. -/
theorem rewrite_of_round_eq {level : Int} {t : Text} (h : round level t = .ok t) (rounds : Nat) :
    rewrite level rounds t = .ok t := by
  cases rounds with
  | zero => rfl
  | succ rounds =>
    rw [rewrite_succ, h]
    exact if_pos rfl

/-- Ending the rounds at a script that does not change makes no difference. -/
theorem rewrite_succ_eq_bind (level : Int) (rounds : Nat) (t : Text) :
    rewrite level (rounds + 1) t = round level t >>= rewrite level rounds := by
  rw [rewrite_succ]
  cases hround : round level t with
  | error f => rfl
  | ok new =>
    change (if new = t then _ else _) = rewrite level rounds new
    by_cases hnew : new = t
    · subst hnew
      rw [if_pos rfl, rewrite_of_round_eq hround]
    · rw [if_neg hnew]

/-- More rounds go on where fewer rounds stop. -/
theorem rewrite_add (level : Int) (m n : Nat) (t : Text) :
    rewrite level (m + n) t = rewrite level m t >>= rewrite level n := by
  induction m generalizing t with
  | zero =>
    rw [Nat.zero_add]
    rfl
  | succ m ih =>
    rw [Nat.add_right_comm, rewrite_succ_eq_bind, rewrite_succ_eq_bind, bind_assoc]
    exact congrArg _ (funext ih)

/-- What is put on a transparent script comes off again. -/
theorem IsTransparent.stripHints_finish {level : Int} {t u : Text} (h : IsTransparent level t)
    (hu : finish level t = .ok u) : stripHints (hintsHeader level ++ u) = t := by
  rw [stripHints_hintsHeader]
  by_cases hlevel : 2 ≤ level
  · rw [finish, if_pos hlevel] at hu
    exact (annotated_of_loopRecognition (h.restores hlevel) hu).stripHints_eq h.opensNoHint
  · rw [finish, if_neg hlevel] at hu
    cases hu
    exact (Annotated.refl t).stripHints_eq h.opensNoHint

/-- The script of a fresh answer: stripped, rewritten, finished and put behind its header. -/
theorem code_fresh (accepts : Acceptance) {r : Request} (hr : r.IsValid) (hlevel : 1 ≤ r.level) :
    Artifact.code <$> fresh accepts r = (do
      accepts r.code
      let t ← rewrite r.level maxRounds (stripHints r.code)
      (hintsHeader r.level ++ ·) <$> finish r.level t) := by
  have hps : passesFor r.level = .ok (passes.filter fun p => p.level ≤ r.level) := by
    rw [passesFor, if_pos]
    simpa [Request.IsValid] using hr
  have hzero : (r.level == 0) = false := by
    rw [beq_eq_false_iff_ne]
    omega
  have hmarks : (passes.filter fun p => p.level ≤ r.level).any
      (fun p => p.step.name == "loop-recognition") = decide (2 ≤ r.level) := by
    obtain h | h | h : r.level = 1 ∨ r.level = 2 ∨ r.level = 3 := by
      have := hr.2
      simp only [maxLevel] at this
      omega
    all_goals rw [h]; decide
  rw [fresh_eq_runPasses hps, runPasses]
  cases accepts r.code with
  | error f => rfl
  | ok _ =>
    have hworking : ((passes.filter fun p => p.level ≤ r.level).filter
        fun p => !(p.step.name == "loop-recognition")).map (·.step) = workingSteps r.level := rfl
    simp only [hzero, hmarks, hworking, Bool.false_eq_true, if_false, rewrite, finish,
      decide_eq_true_eq]
    cases settle (workingSteps r.level) maxRounds (stripHints r.code) with
    | error f => rfl
    | ok settled =>
      obtain ⟨t, changed⟩ := settled
      by_cases hmark : 2 ≤ r.level
      · simp only [if_pos hmark, bind, Except.bind, Functor.map, Except.map]
        cases loopRecognition t <;> rfl
      · simp only [if_neg hmark]
        rfl

/-- A second run gives the same script exactly when twice as many rounds give the same script as
the rounds of one run, as long as the rewritten scripts are transparent. -/
theorem code_fresh_again_iff (accepts : Acceptance) {r : Request} {a : Artifact}
    (hlevel : 1 ≤ r.level) (ha : fresh accepts r = .ok a) (hok : accepts a.code = .ok ())
    (hclear : ∀ n ∈ [maxRounds, 2 * maxRounds], ∀ t,
      rewrite r.level n (stripHints r.code) = .ok t → IsTransparent r.level t) :
    Artifact.code <$> fresh accepts { r with code := a.code } = .ok a.code ↔
      rewrite r.level (2 * maxRounds) (stripHints r.code) =
        rewrite r.level maxRounds (stripHints r.code) := by
  have hvalid := isValid_of_fresh_eq_ok ha
  have hcode := code_fresh accepts hvalid hlevel
  rw [ha] at hcode
  obtain ⟨-, -, hfirst⟩ := Outcome.bind_eq_ok_iff.mp hcode.symm
  obtain ⟨t, ht, hfirst⟩ := Outcome.bind_eq_ok_iff.mp hfirst
  obtain ⟨u, hu, hcode⟩ := Outcome.map_eq_ok_iff.mp hfirst
  have hstrip : stripHints a.code = t := by
    rw [← hcode]
    exact (hclear _ (by simp) t ht).stripHints_finish hu
  have hagain : Artifact.code <$> fresh accepts { r with code := a.code } =
      rewrite r.level maxRounds t >>= fun t' =>
        (hintsHeader r.level ++ ·) <$> finish r.level t' := by
    have hvalid' : Request.IsValid { r with code := a.code } := hvalid
    rw [code_fresh accepts hvalid' hlevel, hok, hstrip]
    rfl
  have htwice : rewrite r.level (2 * maxRounds) (stripHints r.code) =
      rewrite r.level maxRounds t := by
    rw [Nat.two_mul, rewrite_add, ht]
    rfl
  rw [hagain, htwice, ht]
  constructor
  · intro h
    obtain ⟨t', ht', h⟩ := Outcome.bind_eq_ok_iff.mp h
    obtain ⟨u', hu', h⟩ := Outcome.map_eq_ok_iff.mp h
    have hstrip' := (hclear _ (by simp) t' (htwice.trans ht')).stripHints_finish hu'
    rw [ht', ← hstrip', h, hstrip]
  · intro h
    rw [h]
    change (hintsHeader r.level ++ ·) <$> finish r.level t = .ok a.code
    rw [hu, ← hcode]
    rfl

/-- A test that every script passes. -/
def acceptAll : Acceptance := fun _ => .ok ()

/-- A counted loop whose bound can be folded. -/
def foldedBound : Request := ⟨.int 0, 2, "for(let i=0;i<1+2;i++);"⟩

/-- The loop with its bound folded. -/
def foldedLoop : Text := "for(let i=0;i<3;i++);"

/-- The loop with its bound folded and its mark comes out the same from a second run. -/
theorem code_fresh_again_foldedBound :
    ∃ a, fresh acceptAll foldedBound = .ok a ∧
      Artifact.code <$> fresh acceptAll { foldedBound with code := a.code } = .ok a.code := by
  have hround : round 2 (stripHints foldedBound.code) = .ok foldedLoop :=
    Outcome.toOption_eq_some_iff.mp (by decide +kernel)
  have hfixed : round 2 foldedLoop = .ok foldedLoop :=
    Outcome.toOption_eq_some_iff.mp (by decide +kernel)
  have hrewrite (n : Nat) : rewrite 2 (n + 1) (stripHints foldedBound.code) = .ok foldedLoop := by
    rw [rewrite_succ_eq_bind, hround]
    exact rewrite_of_round_eq hfixed n
  have hclear : IsTransparent 2 foldedLoop :=
    ⟨by decide +kernel, fun _ => Outcome.toOption_eq_some_iff.mp (by decide +kernel)⟩
  have hcode : Artifact.code <$> fresh acceptAll foldedBound =
      .ok ("/* @jit:hints level=2 */\n/* @jit:hot-loop */ for(let i=0;i<3;i++);" : Text) := by
    rw [code_fresh acceptAll ⟨by decide, by decide⟩ (by decide)]
    exact Outcome.toOption_eq_some_iff.mp (by decide +kernel)
  obtain ⟨a, ha, -⟩ := Outcome.map_eq_ok_iff.mp hcode
  refine ⟨a, ha, (code_fresh_again_iff acceptAll (by decide) ha rfl ?_).mpr ?_⟩
  · intro n hn u hu
    obtain rfl | rfl : n = 7 + 1 ∨ n = 15 + 1 := by simpa [maxRounds] using hn
    all_goals
      obtain rfl : foldedLoop = u := Except.ok.inj ((hrewrite _).symm.trans hu)
      exact hclear
  · exact (hrewrite 15).trans (hrewrite 7).symm

/-- A string that holds a hint inside a hint. -/
def nestedHint : Request := ⟨.int 0, 1, "\"/* @jit:/* @jit:x */y */\""⟩

/-- The first run takes off the inner hint and the second run the outer one. -/
theorem code_fresh_again_nestedHint :
    ∃ a, fresh acceptAll nestedHint = .ok a ∧
      Artifact.code <$> fresh acceptAll { nestedHint with code := a.code } ≠ .ok a.code := by
  have hfirst : Artifact.code <$> fresh acceptAll nestedHint =
      .ok ("/* @jit:hints level=1 */\n\"/* @jit:y */\"" : Text) := by
    rw [code_fresh acceptAll ⟨by decide, by decide⟩ (by decide)]
    exact Outcome.toOption_eq_some_iff.mp (by decide +kernel)
  obtain ⟨a, ha, hcode⟩ := Outcome.map_eq_ok_iff.mp hfirst
  have hsecond : Artifact.code <$> fresh acceptAll { nestedHint with code := a.code } =
      .ok ("/* @jit:hints level=1 */\n\"\"" : Text) := by
    rw [hcode, code_fresh acceptAll ⟨by decide, by decide⟩ (by decide)]
    exact Outcome.toOption_eq_some_iff.mp (by decide +kernel)
  refine ⟨a, ha, fun h => ?_⟩
  rw [hsecond, hcode] at h
  exact absurd (Except.ok.inj h) (by decide +kernel)

end HostScript.Optimize
