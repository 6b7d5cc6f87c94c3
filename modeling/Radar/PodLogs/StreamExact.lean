import Mathlib.Data.List.Infix
import Radar.Base.Run
import Radar.PodLogs.StreamCursor

/-!
# What a resumed log stream forwards

From the first line that is forwarded on, every line of the log, once and in
the order of the log, as long as the follows that are opened before anything
was delivered leave no line out and none begins among lines that are equal to
one that was sent.
-/

set_option autoImplicit false

namespace Radar.PodLogs

open Radar.Run

namespace Stream

/-- The lines of the Pod's log among these, by their places in the log. -/
def lines (l : List Item) : List ℕ := l.filterMap Item.line

/-- The lines up to the furthest that was consumed. -/
def furthest (s : Stream) : ℕ := (lines s.consumed).foldl (fun n j => max n (j+1)) 0

/-- The first line that was forwarded. -/
def first (s : Stream) : ℕ := (lines s.forwarded).head?.getD 0

/-- The lines that stand between two places. -/
def between (s : Stream) (a b : ℕ) : List Line := (s.log.take (max a b)).drop (min a b)

end Stream

/-- What is promised of the stream of a Pod. -/
structure Exact (s : Stream) : Prop where
  /-- Every line from the first one that was forwarded up to the furthest that was consumed, once and
  in order. -/
  lines : Stream.lines s.forwarded =
    List.range' s.first (s.furthest-s.first)
  /-- What is forwarded of a line is the line. -/
  contents : ∀ i ∈ s.forwarded, ∀ j, i.line = some j →
    s.log[j]? = (i.entry.timestamp.map fun ts => ⟨ts,i.entry.content⟩)
  /-- What is queued of a replaced Pod is all forwarded. -/
  replaced : s.forwarded.filter (fun i => i.line.isNone) =
    s.consumed.filter fun i => i.line.isNone
  alive : s.panicked = false

/-- The line that is consumed is after the zero time. It is not beyond the one after the furthest
line. If it has the timestamp of the last line that was sent, no line that is equal to it stands
between the line its follow began with and the first that was forwarded. -/
def seamless (s : Stream) : Act → Bool
  | .consume =>
    match s.queue with
    | ⟨e,some j⟩::_ => (s.log[j]?).all fun l => 0 < l.ts && (Stream.lines s.consumed = [] ||
        j ≤ s.furthest &&
          (l.ts ≠ s.cursor.last || l ∉ s.between (s.starts e.follow) s.first))
    | _ => true
  | _ => true

abbrev Seamless (s : Stream) (a : Act) : Prop := seamless s a = true

/-- How many lines equal to `l` stand from `a` up to `b`. -/
def tally (log : List Line) (a b : ℕ) (l : Line) : ℕ := ((log.take b).drop a).count l

section Tally

variable {log : List Line} {a b e : ℕ} {l m : Line}

theorem tally_append (hb : b ≤ log.length) : tally (log++[m]) a b l = tally log a b l := by
  rw [tally, tally, List.take_append_of_le_length hb]

/-- One more line is counted. -/
theorem tally_succ (hab : a ≤ b) (hb : log[b]? = some m) :
    tally log a (b+1) l = tally log a b l+if m = l then 1 else 0 := by
  have hlt : b < log.length := (List.getElem?_eq_some_iff.mp hb).1
  have htake : log.take (b+1) = log.take b++[m] := by
    rw [List.take_add_one, hb]
    rfl
  have hlen : a ≤ (log.take b).length := by
    rw [List.length_take]
    omega
  rw [tally, tally, htake, List.drop_append_of_le_length hlen, List.count_append,
    List.count_singleton]
  simp

theorem tally_mono (h : b ≤ e) : tally log a b l ≤ tally log a e l := by
  have hwithin : (log.take b).drop a <+: (log.take e).drop a := by
    have htake : log.take b = (log.take e).take b := by
      rw [List.take_take, Nat.min_eq_left h]
    rw [htake]
    exact (List.take_prefix b (log.take e)).drop a
  exact hwithin.sublist.count_le l

/-- Where none of the lines in between is equal, it does not matter where the count begins. -/
theorem tally_between (ha : a ≤ e) (hb : b ≤ e)
    (hno : l ∉ (log.take (max a b)).drop (min a b)) : tally log a e l = tally log b e l := by
  have hsplit : ∀ {a b : ℕ}, a ≤ b → b ≤ e → l ∉ (log.take b).drop a →
      tally log a e l = tally log b e l := by
    intro a b hab hbe hno
    have happend : (log.take e).drop a = (log.take b).drop a++(log.take e).drop b := by
      have htake : log.take b = (log.take e).take b := by
        rw [List.take_take, Nat.min_eq_left hbe]
      rw [htake]
      conv_lhs => rw [← List.take_append_drop b (log.take e)]
      by_cases hlen : a ≤ ((log.take e).take b).length
      · rw [List.drop_append_of_le_length hlen]
      · have hshort : (log.take e).length ≤ b := by
          rw [List.length_take] at hlen
          omega
        rw [List.drop_eq_nil_of_le hshort, List.append_nil, List.append_nil]
    rw [tally, tally, happend, List.count_append, List.count_eq_zero_of_not_mem hno, Nat.zero_add]
  rcases Nat.le_total a b with hab | hab
  · rw [Nat.max_eq_right hab, Nat.min_eq_left hab] at hno
    exact hsplit hab hb hno
  · rw [Nat.max_eq_left hab, Nat.min_eq_right hab] at hno
    exact (hsplit hab ha hno).symm

/-- Earlier lines are not counted. -/
theorem tally_zero {ts : ℤ} {c : String} (hlow : ∀ i < b, ∀ m, log[i]? = some m → m.ts < ts) :
    tally log a b ⟨ts,c⟩ = 0 := by
  refine List.count_eq_zero_of_not_mem fun hin => ?_
  obtain ⟨i,hi⟩ := List.mem_iff_getElem?.mp (List.mem_of_mem_drop hin)
  rw [List.getElem?_take] at hi
  split_ifs at hi with hlt
  exact absurd (hlow i hlt _ hi) (Int.lt_irrefl ts)

theorem tally_self : tally log a a l = 0 := by
  have hnil : (log.take a).drop a = [] := by
    apply List.drop_eq_nil_of_le
    rw [List.length_take]
    exact Nat.min_le_left ..
  rw [tally, hnil]
  rfl

/-- A count for each content is kept up with the next line. -/
theorem tally_update {d : String → ℕ} {ts : ℤ} (hab : a ≤ b) (hb : log[b]? = some l)
    (hts : l.ts = ts) (hd : ∀ c, d c = tally log a b ⟨ts,c⟩) (c : String) :
    Function.update d l.content (d l.content+1) c = tally log a (b+1) ⟨ts,c⟩ := by
  rw [tally_succ hab hb, ← hd]
  by_cases hc : c = l.content
  · subst hc hts
    simp
  · rw [Function.update_of_ne hc, if_neg]
    · rfl
    · exact fun hsame => hc (congrArg Line.content hsame).symm

theorem sorted_le {i j : ℕ} (hs : log.Pairwise fun l m => l.ts ≤ m.ts) (hi : log[i]? = some l)
    (hj : log[j]? = some m) (hij : i ≤ j) : l.ts ≤ m.ts := by
  rcases Nat.lt_or_eq_of_le hij with hlt | rfl
  · obtain ⟨hi',rfl⟩ := List.getElem?_eq_some_iff.mp hi
    obtain ⟨hj',rfl⟩ := List.getElem?_eq_some_iff.mp hj
    exact List.pairwise_iff_getElem.mp hs i j hi' hj' hlt
  · obtain rfl := Option.some.inj (hi.symm.trans hj)
    exact Int.le_refl _

end Tally

/-- The entries follow one another: of one follow in the order of the log, and of a later follow
from where it began. `prev` is the follow of the entry before and the place after it. -/
def Chained (starts : ℕ → ℕ) : Option (ℕ × ℕ) → List Item → Prop
  | _, [] => True
  | prev, ⟨_,none⟩::rest => Chained starts prev rest
  | prev, ⟨e,some j⟩::rest =>
    (prev = some (e.follow,j) ∨ (∀ q ∈ prev, q.1 < e.follow) ∧ j = starts e.follow) ∧
      Chained starts (some (e.follow,j+1)) rest

def endOf : Option (ℕ × ℕ) → List Item → Option (ℕ × ℕ)
  | prev, [] => prev
  | prev, ⟨_,none⟩::rest => endOf prev rest
  | _, ⟨e,some j⟩::rest => endOf (some (e.follow,j+1)) rest

section Chains

variable {starts : ℕ → ℕ} {prev : Option (ℕ × ℕ)} {l : List Item} {e : Entry} {j : ℕ}

theorem endOf_append (l' : List Item) : endOf prev (l++l') = endOf (endOf prev l) l' := by
  induction l generalizing prev with
  | nil => rfl
  | cons i l ih =>
    obtain ⟨e,line⟩ := i
    cases line <;> exact ih

theorem chained_append (l' : List Item) : Chained starts prev (l++l') ↔
    Chained starts prev l ∧ Chained starts (endOf prev l) l' := by
  induction l generalizing prev with
  | nil => simp [Chained, endOf]
  | cons i l ih =>
    obtain ⟨e,line⟩ := i
    cases line with
    | none => exact ih
    | some j =>
      rw [List.cons_append, Chained, Chained, ih, and_assoc]
      rfl

/-- Nothing changes for the follows that are there. -/
theorem Chained.congr {starts' : ℕ → ℕ} (h : Chained starts prev l)
    (hsame : ∀ i ∈ l, i.line.isSome = true → starts' i.entry.follow = starts i.entry.follow) :
    Chained starts' prev l := by
  induction l generalizing prev with
  | nil => trivial
  | cons i l ih =>
    obtain ⟨e,line⟩ := i
    have htail := fun i hi => hsame i (List.mem_cons_of_mem _ hi)
    cases line with
    | none => exact ih h htail
    | some j =>
      refine ⟨?_,ih h.2 htail⟩
      rw [hsame _ List.mem_cons_self rfl]
      exact h.1

end Chains

/-- Nothing was consumed yet. -/
structure Fresh (s : Stream) : Prop where
  consumed : Stream.lines s.consumed = []
  forwarded : Stream.lines s.forwarded = []
  last : s.cursor.last = 0

/-- The lines from `p` up to `n` were sent. The entry that was consumed last is of the follow `k`,
and of the line before `m`. -/
structure Going (s : Stream) (p n k m : ℕ) : Prop where
  forwarded : Stream.lines s.forwarded = List.range' p (n-p)
  consumed : Stream.lines s.consumed ≠ []
  order : p < n
  furthest : s.furthest = n
  last : ∃ l, s.log[n-1]? = some l ∧ l.ts = s.cursor.last
  positive : 0 < s.cursor.last
  delivered : ∃ d, s.cursor.delivered = some d ∧
    ∀ c, d c = tally s.log p n ⟨s.cursor.last,c⟩
  upto : s.starts k < m ∧ m ≤ n
  /-- The follow has read a line with the timestamp of the last line that was sent, and such lines
  were counted, or it has not. -/
  seen : ∃ l, s.log[m-1]? = some l ∧
    (s.cursor.seenIn = k ∧ l.ts = s.cursor.last ∧ (∃ d, s.cursor.seen = some d ∧
        ∀ c, d c = tally s.log (s.starts k) m ⟨s.cursor.last,c⟩) ∨
      s.cursor.seenIn < k ∧ l.ts < s.cursor.last)

def Reads (s : Stream) : Option (ℕ × ℕ) → Prop
  | none => Fresh s
  | some (k,m) => ∃ p n, Going s p n k m

/-- What an item has of the log, or of a replaced Pod. -/
structure OfLog (cursor : StreamCursor) (follows : ℕ) (log : List Line) (i : Item) : Prop where
  replaced : i.line = none → cursor.fromCurrentPod i.entry = false
  current : ∀ j, i.line = some j → cursor.fromCurrentPod i.entry = true ∧ i.entry.follow ≤ follows ∧
    ∃ l, log[j]? = some l ∧ i.entry.timestamp = some l.ts ∧ i.entry.content = l.content

structure Inv (s : Stream) : Prop where
  sorted : s.log.Pairwise fun l m => l.ts ≤ m.ts
  pod : s.cursor.uid = s.uid
  firstFollow : s.cursor.firstFollow ≤ s.follows+1
  opened : s.running = true → s.cursor.firstFollow ≤ s.follows
  queue : ∀ i ∈ s.queue, OfLog s.cursor s.follows s.log i
  forwarded : ∀ i ∈ s.forwarded, OfLog s.cursor s.follows s.log i
  replaced : s.forwarded.filter (fun i => i.line.isNone) = s.consumed.filter fun i => i.line.isNone
  alive : s.panicked = false
  reads : ∃ prev, Reads s prev ∧ Chained s.starts prev s.queue ∧
    (∀ q ∈ endOf prev s.queue, q.1 ≤ s.follows) ∧
    (s.running = true → endOf prev s.queue = some (s.follows,s.pos) ∨
      (∀ q ∈ endOf prev s.queue, q.1 < s.follows) ∧ s.pos = s.starts s.follows)

section Cursor

variable {c c' : StreamCursor} {entry : Entry} {admitted : Bool} {content : String} {ts : ℤ}
  {k : ℕ}

theorem count_keeps (h : c.count content = some (admitted,c')) :
    c'.uid = c.uid ∧ c'.firstFollow = c.firstFollow := by
  unfold StreamCursor.count at h
  cases hseen : c.seen with
  | none => simp [hseen] at h
  | some seen =>
    simp only [hseen] at h
    split at h
    · obtain ⟨_,rfl⟩ := Prod.mk.inj (Option.some.inj h)
      exact ⟨rfl,rfl⟩
    · split at h
      · nomatch h
      · obtain ⟨_,rfl⟩ := Prod.mk.inj (Option.some.inj h)
        exact ⟨rfl,rfl⟩

theorem turnTo_keeps : (c.turnTo ts k).uid = c.uid ∧ (c.turnTo ts k).firstFollow = c.firstFollow := by
  unfold StreamCursor.turnTo
  split_ifs <;> exact ⟨rfl,rfl⟩

/-- A cursor stays with its Pod. -/
theorem admits_keeps (h : c.admits entry = some (admitted,c')) :
    c'.uid = c.uid ∧ c'.firstFollow = c.firstFollow := by
  unfold StreamCursor.admits at h
  split at h
  · obtain ⟨_,rfl⟩ := Prod.mk.inj (Option.some.inj h)
    exact ⟨rfl,rfl⟩
  · split at h
    · obtain ⟨_,rfl⟩ := Prod.mk.inj (Option.some.inj h)
      exact ⟨rfl,rfl⟩
    · split at h
      · obtain ⟨_,rfl⟩ := Prod.mk.inj (Option.some.inj h)
        exact ⟨rfl,rfl⟩
      · have hcount := count_keeps h
        have hturn := @turnTo_keeps c
        exact ⟨hcount.1.trans hturn.1,hcount.2.trans hturn.2⟩

theorem admits_replaced (h : c.fromCurrentPod entry = false) : c.admits entry = some (true,c) := by
  rw [StreamCursor.admits, if_pos h]

theorem admits_current (h : c.fromCurrentPod entry = true) (hts : entry.timestamp = some ts) :
    c.admits entry = if ts < c.last then some (false,c)
      else (c.turnTo ts entry.follow).count entry.content := by
  rw [StreamCursor.admits, if_neg (by simp [h]), hts]

/-- A line is counted where the maps are made. -/
theorem count_made (c : StreamCursor) (content : String) {seen delivered : String → ℕ}
    (hseen : c.seen = some seen) (hdelivered : c.delivered = some delivered) : c.count content =
      if seen content+1 ≤ delivered content then
        some (false,{ c with seen := some (Function.update seen content (seen content+1)) })
      else some (true,{ c with
        seen := some (Function.update seen content (seen content+1))
        delivered := some (Function.update delivered content (seen content+1)) }) := by
  unfold StreamCursor.count
  simp only [hseen, hdelivered, Option.map_some, Option.getD_some, Function.update_self]

end Cursor

section Frames

variable {s : Stream} {i : Item} {prev : Option (ℕ × ℕ)} {l : Line}

theorem getElem?_grown {j : ℕ} {m : Line} (h : s.log[j]? = some m) : (s.log++[l])[j]? = some m := by
  rw [List.getElem?_append_left (List.getElem?_eq_some_iff.mp h).1, h]

theorem OfLog.grown (h : OfLog s.cursor s.follows s.log i) :
    OfLog s.cursor s.follows (s.log++[l]) i where
  replaced := h.replaced
  current j hj := by
    obtain ⟨hpod,hfollow,m,hm,hrest⟩ := h.current j hj
    exact ⟨hpod,hfollow,m,getElem?_grown hm,hrest⟩

theorem OfLog.later {follows : ℕ} (h : OfLog s.cursor s.follows s.log i)
    (hle : s.follows ≤ follows) : OfLog s.cursor follows s.log i where
  replaced := h.replaced
  current j hj := by
    obtain ⟨hpod,hfollow,hrest⟩ := h.current j hj
    exact ⟨hpod,hfollow.trans hle,hrest⟩

/-- What was consumed says nothing of what is queued. -/
theorem Reads.congr {t : Stream} (h : Reads s prev) (hlog : t.log = s.log)
    (hcursor : t.cursor = s.cursor)
    (hconsumed : Stream.lines t.consumed = Stream.lines s.consumed)
    (hforwarded : Stream.lines t.forwarded = Stream.lines s.forwarded)
    (hstarts : ∀ q ∈ prev, t.starts q.1 = s.starts q.1) : Reads t prev := by
  cases prev with
  | none =>
    have h : Fresh s := h
    refine ⟨?_,?_,?_⟩
    · rw [hconsumed]
      exact h.consumed
    · rw [hforwarded]
      exact h.forwarded
    · rw [hcursor]
      exact h.last
  | some q =>
    obtain ⟨p,n,h⟩ := h
    have hsame := hstarts q rfl
    refine ⟨p,n,?_,?_,h.order,?_,?_,?_,?_,?_,?_⟩
    · rw [hforwarded]
      exact h.forwarded
    · rw [hconsumed]
      exact h.consumed
    · rw [Stream.furthest, hconsumed]
      exact h.furthest
    · rw [hlog, hcursor]
      exact h.last
    · rw [hcursor]
      exact h.positive
    · rw [hlog, hcursor]
      exact h.delivered
    · rw [hsame]
      exact h.upto
    · rw [hlog, hcursor, hsame]
      exact h.seen

theorem Reads.grown (h : Reads s prev) : Reads { s with log := s.log++[l] } prev := by
  cases prev with
  | none => exact ⟨h.consumed,h.forwarded,h.last⟩
  | some q =>
    obtain ⟨p,n,h⟩ := h
    obtain ⟨last,hlast,hts⟩ := h.last
    obtain ⟨m,hm,hseen⟩ := h.seen
    obtain ⟨d,hd,hcount⟩ := h.delivered
    have hn : n ≤ s.log.length := by
      have := (List.getElem?_eq_some_iff.mp hlast).1
      have := h.order
      omega
    refine ⟨p,n,{ h with
      last := ⟨last,getElem?_grown hlast,hts⟩
      delivered := ⟨d,hd,fun c => ?_⟩
      seen := ⟨m,getElem?_grown hm,?_⟩ }⟩
    · rw [hcount, ← tally_append hn]
    · rcases hseen with ⟨hin,hmts,d,hd,hcount⟩ | hother
      · refine .inl ⟨hin,hmts,d,hd,fun c => ?_⟩
        rw [hcount, ← tally_append (h.upto.2.trans hn)]
      · exact .inr hother

end Frames

section Steps

variable {s t : Stream}

theorem append_inv (h : Inv s) {l : Line} (ht : s.append l = some t) : Inv t := by
  unfold Stream.append at ht
  split at ht
  · rename_i hlast
    obtain rfl := Option.some.inj ht
    obtain ⟨prev,hreads,hrest⟩ := h.reads
    refine { h with
      sorted := ?_
      queue := fun i hi => (h.queue i hi).grown
      forwarded := fun i hi => (h.forwarded i hi).grown
      reads := ⟨prev,hreads.grown,hrest⟩ }
    refine List.pairwise_append.mpr ⟨h.sorted,List.pairwise_singleton _ _,fun m hm l' hl' => ?_⟩
    rw [List.mem_singleton.mp hl']
    obtain ⟨last,hlastm⟩ : ∃ last, s.log.getLast? = some last :=
      ⟨_,List.getLast?_eq_some_getLast (List.ne_nil_of_mem hm)⟩
    obtain ⟨front,hfront⟩ := List.getLast?_eq_some_iff.mp hlastm
    have hle := hlast last hlastm
    have hsorted := h.sorted
    rw [hfront] at hm hsorted
    rcases List.mem_append.mp hm with hm | hm
    · have hbefore := (List.pairwise_append.mp hsorted).2.2 m hm last List.mem_cons_self
      omega
    · rw [List.mem_singleton.mp hm]
      exact hle
  · cases ht

theorem cursorFor_same (h : s.cursor.uid = s.uid) (k : ℕ) :
    cursorFor (some s.cursor) s.uid k = s.cursor := by
  simp [cursorFor, h]

/-- The follows of what is chained go up to that of the last. -/
theorem chained_le {starts : ℕ → ℕ} {prev : Option (ℕ × ℕ)} {l : List Item}
    (h : Chained starts prev l) :
    (∀ q ∈ prev, ∃ r ∈ endOf prev l, q.1 ≤ r.1) ∧
      ∀ i ∈ l, i.line.isSome = true → ∃ r ∈ endOf prev l, i.entry.follow ≤ r.1 := by
  induction l generalizing prev with
  | nil => exact ⟨fun q hq => ⟨q,hq,Nat.le_refl _⟩,nofun⟩
  | cons i l ih =>
    obtain ⟨e,line⟩ := i
    cases line with
    | none =>
      obtain ⟨hprev,hall⟩ := ih h
      refine ⟨hprev,fun i hi hline => ?_⟩
      rcases List.mem_cons.mp hi with rfl | hi
      · nomatch hline
      · exact hall i hi hline
    | some j =>
      obtain ⟨hprev,hall⟩ := ih h.2
      obtain ⟨r,hr,hle⟩ := hprev _ rfl
      refine ⟨fun q hq => ⟨r,hr,?_⟩,fun i hi hline => ?_⟩
      · rcases h.1 with hsame | ⟨hlt,_⟩
        · obtain rfl := Option.some.inj (hq.symm.trans hsame)
          exact hle
        · exact (hlt q hq).le.trans hle
      · rcases List.mem_cons.mp hi with rfl | hi
        · exact ⟨r,hr,hle⟩
        · exact hall i hi hline

theorem start_inv (h : Inv s) {window : ℕ} (ht : s.start window = some t) : Inv t := by
  unfold Stream.start at ht
  split at ht
  · cases ht
  obtain rfl := Option.some.inj ht
  obtain ⟨prev,hreads,hchain,hend,_⟩ := h.reads
  have hsame := cursorFor_same h.pod (s.follows+1)
  generalize hbegin : s.served ((cursorFor (some s.cursor) s.uid (s.follows+1)).restartOptions
    s.container s.tailLines s.sinceSeconds) window = begin
  obtain ⟨hprev,hall⟩ := chained_le hchain
  have hold : ∀ k ≤ s.follows, Function.update s.starts (s.follows+1) begin k = s.starts k := by
    intro k hk
    exact Function.update_of_ne (by omega) ..
  rw [hsame]
  refine
    { sorted := h.sorted
      pod := h.pod
      firstFollow := h.firstFollow.trans (Nat.le_succ _)
      opened := fun _ => h.firstFollow
      queue := fun i hi => (h.queue i hi).later (Nat.le_succ _)
      forwarded := fun i hi => (h.forwarded i hi).later (Nat.le_succ _)
      replaced := h.replaced
      alive := h.alive
      reads := ⟨prev,hreads.congr rfl rfl rfl rfl ?_,hchain.congr ?_,?_,fun _ => .inr ⟨?_,?_⟩⟩ }
  · intro q hq
    obtain ⟨r,hr,hle⟩ := hprev q hq
    exact hold _ (hle.trans (hend r hr))
  · intro i hi hline
    obtain ⟨r,hr,hle⟩ := hall i hi hline
    exact hold _ (hle.trans (hend r hr))
  · exact fun q hq => (hend q hq).trans (Nat.le_succ _)
  · exact fun q hq => Nat.lt_succ_of_le (hend q hq)
  · exact (Function.update_self (s.follows+1) begin s.starts).symm

theorem read_inv (h : Inv s) (ht : s.read = some t) : Inv t := by
  unfold Stream.read at ht
  split at ht
  · rename_i hrunning
    split at ht
    · rename_i l hl
      obtain rfl := Option.some.inj ht
      obtain ⟨prev,hreads,hchain,hend,hpos⟩ := h.reads
      have hlater : endOf prev (s.queue++[⟨⟨some l.ts,l.content,s.follows⟩,some s.pos⟩]) =
        some (s.follows,s.pos+1) := endOf_append _
      refine { h with
        queue := fun i hi => ?_
        reads := ⟨prev,hreads.congr rfl rfl rfl rfl fun _ _ => rfl,
          (chained_append _).mpr ⟨hchain,hpos hrunning,trivial⟩,?_,fun _ => .inl hlater⟩ }
      · rcases List.mem_append.mp hi with hi | hi
        · exact h.queue i hi
        · rw [List.mem_singleton.mp hi]
          refine ⟨(by simp),fun j hj => ?_⟩
          obtain rfl := Option.some.inj hj
          exact ⟨decide_eq_true (h.opened hrunning),Nat.le_refl _,l,hl,rfl,rfl⟩
      · intro q hq
        obtain rfl := Option.some.inj (hlater.symm.trans hq)
        exact Nat.le_refl _
    · cases ht
  · cases ht

theorem stop_inv (h : Inv s) (ht : s.stop = some t) : Inv t := by
  unfold Stream.stop at ht
  split at ht
  · obtain rfl := Option.some.inj ht
    obtain ⟨prev,hreads,hchain,hend,_⟩ := h.reads
    exact { h with
      opened := (by simp)
      reads := ⟨prev,hreads.congr rfl rfl rfl rfl fun _ _ => rfl,hchain,hend,(by simp)⟩ }
  · cases ht

theorem readReplaced_inv (h : Inv s) {entry : Entry} (ht : s.readReplaced entry = some t) :
    Inv t := by
  unfold Stream.readReplaced at ht
  split at ht
  · cases ht
  rename_i hreplaced
  obtain rfl := Option.some.inj ht
  obtain ⟨prev,hreads,hchain,hend,hpos⟩ := h.reads
  have hsame : endOf prev (s.queue++[⟨entry,none⟩]) = endOf prev s.queue := endOf_append _
  refine { h with
    queue := fun i hi => ?_
    reads := ⟨prev,hreads.congr rfl rfl rfl rfl fun _ _ => rfl,(chained_append _).mpr ⟨hchain,trivial⟩,
      ?_,?_⟩ }
  · rcases List.mem_append.mp hi with hi | hi
    · exact h.queue i hi
    · rw [List.mem_singleton.mp hi]
      exact ⟨fun _ => by simpa using hreplaced,(by simp)⟩
  · rw [hsame]
    exact hend
  · rw [hsame]
    exact hpos

theorem lines_append (l l' : List Item) : Stream.lines (l++l') = Stream.lines l++Stream.lines l' :=
  List.filterMap_append

theorem furthest_append {e : Entry} {j : ℕ} (u : Stream)
    (hu : u.consumed = s.consumed++[⟨e,some j⟩]) : u.furthest = max s.furthest (j+1) := by
  rw [Stream.furthest, hu, lines_append, List.foldl_append]
  rfl

theorem Going.first {p n k m : ℕ} (h : Going s p n k m) : s.first = p := by
  have hlen : n-p = (n-p-1)+1 := by
    have := h.order
    omega
  rw [Stream.first, h.forwarded, hlen, List.range'_succ]
  rfl

/-- The state after an entry of the Pod's log is consumed. -/
def took (s : Stream) (i : Item) (rest : List Item) (admitted : Bool) (c : StreamCursor) : Stream :=
  { s with
    cursor := c, queue := rest, consumed := s.consumed++[i]
    forwarded := if admitted then s.forwarded++[i] else s.forwarded }

variable {e : Entry} {j p n k m : ℕ} {l : Line} {rest : List Item}

/-- The first entry of all is admitted. -/
theorem Fresh.consume (h : Fresh s) (hpod : s.cursor.fromCurrentPod e = true)
    (hts : e.timestamp = some l.ts) (hcontent : e.content = l.content) (hl : s.log[j]? = some l)
    (hstart : j = s.starts e.follow) (hpositive : 0 < l.ts) :
    ∃ admitted c, s.cursor.admits e = some (admitted,c) ∧
      Reads (took s ⟨e,some j⟩ rest admitted c) (some (e.follow,j+1)) := by
  have hlater : ¬l.ts < s.cursor.last := by
    rw [h.last]
    omega
  have hturn : s.cursor.turnTo l.ts e.follow = { s.cursor with
      last := l.ts, delivered := some fun _ => 0, seen := some fun _ => 0, seenIn := e.follow } := by
    rw [StreamCursor.turnTo, if_pos (by rw [h.last]; exact hpositive)]
  have hnone : ∀ c, tally s.log j j ⟨l.ts,c⟩ = 0 := fun c => tally_self
  have hseen : ∀ c, Function.update (fun _ => 0) l.content (0+1) c =
      tally s.log (s.starts e.follow) (j+1) ⟨l.ts,c⟩ := by
    intro c
    rw [← hstart]
    exact tally_update (Nat.le_refl j) hl rfl (fun c => (hnone c).symm) c
  have hadmits := admits_current hpod hts
  rw [if_neg hlater, hturn, count_made _ _ rfl rfl, if_neg (by simp)] at hadmits
  refine ⟨true,_,hadmits,j,j+1,?_⟩
  · have hlines : Stream.lines (s.forwarded++[⟨e,some j⟩]) = [j] := by
      rw [lines_append, h.forwarded]
      rfl
    have hconsumed : Stream.lines (s.consumed++[⟨e,some j⟩]) = [j] := by
      rw [lines_append, h.consumed]
      rfl
    exact
      { forwarded := by
          show Stream.lines (s.forwarded++_) = _
          rw [hlines, Nat.add_sub_cancel_left]
          rfl
        consumed := by
          show Stream.lines (s.consumed++_) ≠ []
          rw [hconsumed]
          nofun
        order := Nat.lt_succ_self j
        furthest := by
          show (Stream.lines (s.consumed++_)).foldl _ _ = _
          rw [hconsumed]
          exact Nat.zero_max _
        last := ⟨l,hl,rfl⟩
        positive := hpositive
        delivered := ⟨_,rfl,by
          rw [hcontent]
          exact tally_update (Nat.le_refl j) hl rfl fun c => (hnone c).symm⟩
        upto := ⟨hstart ▸ Nat.lt_succ_self _,Nat.le_refl _⟩
        seen := ⟨l,hl,.inl ⟨rfl,rfl,_,rfl,by
          rw [hcontent]
          exact hseen⟩⟩ }

/-- What is known of the next entry of the Pod's log: its line, where its follow stands, and that
it is not beyond the next line. -/
structure Next (s : Stream) (e : Entry) (j n k m : ℕ) (l : Line) : Prop where
  line : s.log[j]? = some l
  pod : s.cursor.fromCurrentPod e = true
  ts : e.timestamp = some l.ts
  content : e.content = l.content
  place : k = e.follow ∧ m = j ∨ k < e.follow ∧ j = s.starts e.follow
  near : j ≤ n

theorem Next.start_le (hn : Next s e j n k m l) (h : Going s p n k m) : s.starts e.follow ≤ j := by
  rcases hn.place with ⟨rfl,rfl⟩ | ⟨_,rfl⟩
  · exact h.upto.1.le
  · exact Nat.le_refl _

theorem Next.follow_le (hn : Next s e j n k m l) : k ≤ e.follow := by
  rcases hn.place with ⟨rfl,_⟩ | ⟨hlt,_⟩
  · exact Nat.le_refl _
  · exact hlt.le

/-- The follow of an entry that is older than the last line was not counted yet. -/
theorem Next.uncounted (hn : Next s e j n k m l) (h : Going s p n k m)
    (hs : s.log.Pairwise fun l m => l.ts ≤ m.ts)
    (hold : l.ts < s.cursor.last ∨ e.follow ≠ s.cursor.seenIn) : s.cursor.seenIn < e.follow := by
  obtain ⟨x,hx,hcases⟩ := h.seen
  rcases hn.place with ⟨rfl,rfl⟩ | ⟨hlt,_⟩
  · rcases hcases with ⟨hin,hxts,_⟩ | ⟨hin,_⟩
    · rcases hold with hold | hold
      · have hle := sorted_le hs hx hn.line (Nat.sub_le _ _)
        omega
      · exact absurd hin.symm hold
    · exact hin
  · rcases hcases with ⟨hin,_⟩ | ⟨hin,_⟩ <;> omega

/-- A line that is older than the last one was sent before. -/
theorem Going.consume_old (h : Going s p n k m) (hs : s.log.Pairwise fun l m => l.ts ≤ m.ts)
    (hn : Next s e j n k m l) (hold : l.ts < s.cursor.last) :
    ∃ admitted c, s.cursor.admits e = some (admitted,c) ∧
      Reads (took s ⟨e,some j⟩ rest admitted c) (some (e.follow,j+1)) := by
  have hadmits := admits_current hn.pod hn.ts
  rw [if_pos hold] at hadmits
  obtain ⟨last,hlast,hlastts⟩ := h.last
  have hlt : j < n := by
    rcases Nat.lt_or_eq_of_le hn.near with hlt | rfl
    · exact hlt
    · have hle := sorted_le hs hlast hn.line (Nat.sub_le _ _)
      omega
  refine ⟨false,_,hadmits,p,n,{ h with
    consumed := ?_
    furthest := ?_
    upto := ⟨Nat.lt_succ_of_le (hn.start_le h),hlt⟩
    seen := ⟨l,hn.line,.inr ⟨hn.uncounted h hs (.inl hold),hold⟩⟩ }⟩
  · show Stream.lines (s.consumed++_) ≠ []
    rw [lines_append]
    exact List.append_ne_nil_of_left_ne_nil h.consumed _
  · rw [furthest_append (s := s) (e := e) (j := j) _ rfl, h.furthest]
    omega

/-- The cursor turns to the timestamp of a line, and has the counts of its follow before it. -/
theorem Next.turn (hn : Next s e j n k m l) (h : Going s p n k m)
    (hs : s.log.Pairwise fun l m => l.ts ≤ m.ts) (hsame : l.ts = s.cursor.last) :
    ∃ seen, s.cursor.turnTo l.ts e.follow =
        { s.cursor with seen := some seen, seenIn := e.follow } ∧
      ∀ c, seen c = tally s.log (s.starts e.follow) j ⟨s.cursor.last,c⟩ := by
  have hnot : ¬s.cursor.last < l.ts := by omega
  obtain ⟨x,hx,hcases⟩ := h.seen
  by_cases hin : e.follow = s.cursor.seenIn
  · have hk : k = e.follow := by
      rcases hcases with ⟨hk,_⟩ | ⟨hk,_⟩
      · omega
      · have := hn.follow_le
        omega
    rcases hn.place with ⟨rfl,rfl⟩ | ⟨hlt,_⟩
    · rcases hcases with ⟨_,_,seen,hseen,hcount⟩ | ⟨hlt,_⟩
      · refine ⟨seen,?_,hcount⟩
        rw [StreamCursor.turnTo, if_neg hnot, if_neg (by simp [hin]), ← hseen, hin]
      · omega
    · omega
  · refine ⟨fun _ => 0,?_,fun c => ?_⟩
    · rw [StreamCursor.turnTo, if_neg hnot, if_pos hin]
    · have hlater := hn.uncounted h hs (.inr hin)
      rcases hn.place with ⟨rfl,rfl⟩ | ⟨_,rfl⟩
      · rcases hcases with ⟨hk,_⟩ | ⟨_,hxts⟩
        · omega
        · refine (tally_zero fun i hi y hy => ?_).symm
          have hle := sorted_le hs hy hx (by omega)
          omega
      · exact tally_self.symm

/-- What is sent after the furthest line is the next one. -/
theorem Going.lines_next (h : Going s p n k m) :
    Stream.lines (s.forwarded++[⟨e,some n⟩]) = List.range' p (n+1-p) := by
  have hlen : n+1-p = (n-p)+1 := by
    have := h.order
    omega
  have hend : p+(n-p) = n := by
    have := h.order
    omega
  rw [lines_append, h.forwarded, hlen, List.range'_concat, Nat.one_mul, hend]
  rfl

/-- A line with the timestamp of the last one is counted, and is sent if it is the next. -/
theorem Going.consume_same (h : Going s p n k m) (hs : s.log.Pairwise fun l m => l.ts ≤ m.ts)
    (hn : Next s e j n k m l) (hsame : l.ts = s.cursor.last)
    (hno : l ∉ s.between (s.starts e.follow) p) :
    ∃ admitted c, s.cursor.admits e = some (admitted,c) ∧
      Reads (took s ⟨e,some j⟩ rest admitted c) (some (e.follow,j+1)) := by
  obtain ⟨seen,hturn,hcount⟩ := hn.turn h hs hsame
  obtain ⟨delivered,hdelivered,hsent⟩ := h.delivered
  have hline : l = ⟨s.cursor.last,l.content⟩ := by
    rw [← hsame]
  have hstart := hn.start_le h
  have hp : p ≤ j := by
    by_contra hlt
    refine hno (List.mem_iff_getElem?.mpr ⟨j-min (s.starts e.follow) p,?_⟩)
    have hplace : min (s.starts e.follow) p+(j-min (s.starts e.follow) p) = j := by omega
    rw [Stream.between, List.getElem?_drop, hplace, List.getElem?_take_of_lt (by omega)]
    exact hn.line
  have hone := tally_succ (l := l) hstart hn.line
  rw [if_pos rfl] at hone
  have hboth : seen l.content+1 = tally s.log p (j+1) l := by
    rw [← tally_between (by omega) (by omega) hno, hone, hcount, ← hline]
  have hdl : delivered l.content = tally s.log p n l := by rw [hsent, ← hline]
  have hseen := tally_update hstart hn.line hsame hcount
  have hadmits : s.cursor.admits e =
      ({ s.cursor with seen := some seen, seenIn := e.follow } : StreamCursor).count l.content := by
    rw [admits_current hn.pod hn.ts, if_neg (by omega), hturn, hn.content]
  rw [count_made { s.cursor with seen := some seen, seenIn := e.follow } _ rfl hdelivered] at hadmits
  have hafter : s.starts e.follow < j+1 := Nat.lt_succ_of_le hstart
  rcases Nat.lt_or_eq_of_le hn.near with hlt | rfl
  · have hmono : tally s.log p (j+1) l ≤ tally s.log p n l := tally_mono hlt
    rw [if_pos (by omega)] at hadmits
    refine ⟨false,_,hadmits,p,n,{ h with
      consumed := ?_
      furthest := ?_
      upto := ⟨hafter,hlt⟩
      seen := ⟨l,hn.line,.inl ⟨rfl,hsame,_,rfl,hseen⟩⟩ }⟩
    · show Stream.lines (s.consumed++_) ≠ []
      rw [lines_append]
      exact List.append_ne_nil_of_left_ne_nil h.consumed _
    · rw [furthest_append (s := s) (e := e) (j := j) _ rfl, h.furthest]
      omega
  · have hsucc := tally_succ (l := l) hp hn.line
    rw [if_pos rfl] at hsucc
    have hnext : seen l.content+1 = delivered l.content+1 := by rw [hboth, hsucc, hdl]
    rw [if_neg (by omega)] at hadmits
    refine ⟨true,_,hadmits,p,j+1,?_⟩
    exact
      { forwarded := h.lines_next
        consumed := by
          show Stream.lines (s.consumed++_) ≠ []
          rw [lines_append]
          exact List.append_ne_nil_of_left_ne_nil h.consumed _
        order := Nat.lt_succ_of_le hp
        furthest := by
          rw [furthest_append (s := s) (e := e) (j := j) _ rfl, h.furthest]
          omega
        last := ⟨l,hn.line,hsame⟩
        positive := h.positive
        delivered := ⟨_,rfl,by
          rw [hnext]
          exact tally_update hp hn.line hsame hsent⟩
        upto := ⟨hafter,Nat.le_refl _⟩
        seen := ⟨l,hn.line,.inl ⟨rfl,hsame,_,rfl,hseen⟩⟩ }

/-- A later line is the next one, and is sent. -/
theorem Going.consume_later (h : Going s p n k m) (hs : s.log.Pairwise fun l m => l.ts ≤ m.ts)
    (hn : Next s e j n k m l) (hlater : s.cursor.last < l.ts) :
    ∃ admitted c, s.cursor.admits e = some (admitted,c) ∧
      Reads (took s ⟨e,some j⟩ rest admitted c) (some (e.follow,j+1)) := by
  obtain ⟨last,hlast,hlastts⟩ := h.last
  obtain rfl : j = n := by
    have hnear := hn.near
    by_contra hne
    have hle := sorted_le hs hn.line hlast (by omega)
    omega
  have hzero : ∀ a, ∀ c, tally s.log a j ⟨l.ts,c⟩ = 0 := by
    intro a c
    refine tally_zero fun i hi x hx => ?_
    have hle := sorted_le hs hx hlast (by omega)
    omega
  have hcounts : ∀ a ≤ j, ∀ c, Function.update (fun _ => 0) l.content (0+1) c =
      tally s.log a (j+1) ⟨l.ts,c⟩ :=
    fun a ha => tally_update ha hn.line rfl fun c => (hzero a c).symm
  have hadmits : s.cursor.admits e = ({ s.cursor with
      last := l.ts, delivered := some fun _ => 0, seen := some fun _ => 0
      seenIn := e.follow } : StreamCursor).count l.content := by
    rw [admits_current hn.pod hn.ts, if_neg (by omega), StreamCursor.turnTo, if_pos hlater,
      hn.content]
  rw [count_made _ _ rfl rfl, if_neg (by simp)] at hadmits
  have hp := h.order
  refine ⟨true,_,hadmits,p,j+1,?_⟩
  exact
    { forwarded := h.lines_next
      consumed := by
        show Stream.lines (s.consumed++_) ≠ []
        rw [lines_append]
        exact List.append_ne_nil_of_left_ne_nil h.consumed _
      order := Nat.lt_succ_of_lt hp
      furthest := by
        rw [furthest_append (s := s) (e := e) (j := j) _ rfl, h.furthest]
        omega
      last := ⟨l,hn.line,rfl⟩
      positive := Int.lt_trans h.positive hlater
      delivered := ⟨_,rfl,hcounts p hp.le⟩
      upto := ⟨Nat.lt_succ_of_le (hn.start_le h),Nat.le_refl _⟩
      seen := ⟨l,hn.line,.inl ⟨rfl,rfl,_,rfl,hcounts _ (hn.start_le h)⟩⟩ }

theorem Going.consume (h : Going s p n k m) (hs : s.log.Pairwise fun l m => l.ts ≤ m.ts)
    (hn : Next s e j n k m l)
    (hno : l.ts = s.cursor.last → l ∉ s.between (s.starts e.follow) p) :
    ∃ admitted c, s.cursor.admits e = some (admitted,c) ∧
      Reads (took s ⟨e,some j⟩ rest admitted c) (some (e.follow,j+1)) := by
  rcases Int.lt_trichotomy l.ts s.cursor.last with hold | hsame | hlater
  · exact h.consume_old hs hn hold
  · exact h.consume_same hs hn hsame (hno hsame)
  · exact h.consume_later hs hn hlater

/-- What is consumed of the Pod's log is counted, and the stream goes on. -/
theorem consume_line (h : Inv s) (hq : s.queue = ⟨e,some j⟩::rest)
    (hok : Seamless s .consume) : ∃ admitted c, s.cursor.admits e = some (admitted,c) ∧
      Reads (took s ⟨e,some j⟩ rest admitted c) (some (e.follow,j+1)) ∧
      Chained s.starts (some (e.follow,j+1)) rest ∧
      (∀ q ∈ endOf (some (e.follow,j+1)) rest, q.1 ≤ s.follows) ∧
      (s.running = true → endOf (some (e.follow,j+1)) rest = some (s.follows,s.pos) ∨
        (∀ q ∈ endOf (some (e.follow,j+1)) rest, q.1 < s.follows) ∧
          s.pos = s.starts s.follows) := by
  obtain ⟨prev,hreads,hchain,hrest⟩ := h.reads
  have hin : (⟨e,some j⟩ : Item) ∈ s.queue := by
    rw [hq]
    exact List.mem_cons_self
  obtain ⟨hpod,_,l,hl,hts,hcontent⟩ := (h.queue _ hin).current j rfl
  have hseamless : 0 < l.ts ∧ (Stream.lines s.consumed ≠ [] → j ≤ s.furthest ∧
      (l.ts = s.cursor.last → l ∉ s.between (s.starts e.follow) s.first)) := by
    have hok' := hok
    simp only [Seamless, seamless, hq, hl, Option.all_some, Bool.and_eq_true, Bool.or_eq_true,
      decide_eq_true_eq] at hok'
    refine ⟨hok'.1,fun hne => ?_⟩
    rcases hok'.2 with hnil | ⟨hnear,hno⟩
    · exact absurd hnil hne
    · exact ⟨hnear,fun hsame => hno.resolve_left fun hne => hne hsame⟩
  obtain ⟨hpositive,hnext⟩ := hseamless
  rw [hq] at hchain hrest
  have hdone : ∃ admitted c, s.cursor.admits e = some (admitted,c) ∧
      Reads (took s ⟨e,some j⟩ rest admitted c) (some (e.follow,j+1)) := by
    cases prev with
    | none =>
      rcases hchain.1 with hsame | ⟨_,hstart⟩
      · nomatch hsame
      · exact Fresh.consume hreads hpod hts hcontent hl hstart hpositive
    | some q =>
      obtain ⟨k,m⟩ := q
      obtain ⟨p,n,hgoing⟩ := hreads
      obtain ⟨hnear,hno⟩ := hnext hgoing.consumed
      rw [hgoing.first] at hno
      rw [hgoing.furthest] at hnear
      have hplace : k = e.follow ∧ m = j ∨ k < e.follow ∧ j = s.starts e.follow := by
        rcases hchain.1 with hsame | ⟨hlt,hstart⟩
        · exact .inl (Prod.mk.inj (Option.some.inj hsame))
        · exact .inr ⟨hlt _ rfl,hstart⟩
      exact hgoing.consume h.sorted ⟨hl,hpod,hts,hcontent,hplace,hnear⟩ hno
  obtain ⟨admitted,c,hadmits,htook⟩ := hdone
  exact ⟨admitted,c,hadmits,htook,hchain.2,hrest⟩

/-- An item stays of the log while the cursor stays with its Pod. -/
theorem OfLog.admitted {i : Item} {c : StreamCursor} (h : OfLog s.cursor s.follows s.log i)
    (hc : c.firstFollow = s.cursor.firstFollow) : OfLog c s.follows s.log i := by
  have hsame : c.fromCurrentPod i.entry = s.cursor.fromCurrentPod i.entry := by
    rw [StreamCursor.fromCurrentPod, StreamCursor.fromCurrentPod, hc]
  refine ⟨fun hline => hsame.trans (h.replaced hline),fun j hj => ?_⟩
  obtain ⟨hpod,hfollow⟩ := h.current j hj
  exact ⟨hsame.trans hpod,hfollow⟩

theorem consume_inv (h : Inv s) (hok : Seamless s .consume) (ht : s.consume = some t) : Inv t := by
  unfold Stream.consume at ht
  cases hq : s.queue with
  | nil => simp [hq] at ht
  | cons i rest =>
    simp only [hq] at ht
    have hin : i ∈ s.queue := by
      rw [hq]
      exact List.mem_cons_self
    have hout : ∀ i' ∈ rest, i' ∈ s.queue := by
      intro i' hi'
      rw [hq]
      exact List.mem_cons_of_mem _ hi'
    obtain ⟨e,line⟩ := i
    cases line with
    | none =>
      have hadmits := admits_replaced ((h.queue _ hin).replaced rfl)
      simp only [hadmits] at ht
      rw [← Option.some.inj ht]
      obtain ⟨prev,hreads,hchain,hrest⟩ := h.reads
      rw [hq] at hchain hrest
      refine { h with
        queue := fun i' hi' => h.queue i' (hout i' hi')
        forwarded := fun i' hi' => ?_
        replaced := ?_
        reads := ⟨prev,?_,hchain,hrest⟩ }
      · rcases List.mem_append.mp hi' with hi' | hi'
        · exact h.forwarded i' hi'
        · rw [List.mem_singleton.mp hi']
          exact h.queue _ hin
      · show (s.forwarded++_).filter _ = (s.consumed++_).filter _
        rw [List.filter_append, List.filter_append, h.replaced]
      · have hsame : ∀ l, Stream.lines (l++[(⟨e,none⟩ : Item)]) = Stream.lines l := by
          intro l
          rw [lines_append]
          exact List.append_nil _
        exact hreads.congr rfl rfl (hsame _) (hsame _) fun _ _ => rfl
    | some j =>
      obtain ⟨admitted,c,hadmits,htook,hrest⟩ := consume_line h hq hok
      obtain ⟨huid,hfirst⟩ := admits_keeps hadmits
      simp only [hadmits] at ht
      rw [← Option.some.inj ht]
      refine
        { sorted := h.sorted
          pod := huid.trans h.pod
          firstFollow := hfirst ▸ h.firstFollow
          opened := fun hrunning => hfirst ▸ h.opened hrunning
          queue := fun i' hi' => (h.queue i' (hout i' hi')).admitted hfirst
          forwarded := fun i' hi' => ?_
          replaced := ?_
          alive := h.alive
          reads := ⟨_,htook,hrest⟩ }
      · have hall : ∀ i' ∈ s.forwarded++[(⟨e,some j⟩ : Item)], OfLog c s.follows s.log i' := by
          intro i' hi'
          rcases List.mem_append.mp hi' with hi' | hi'
          · exact (h.forwarded i' hi').admitted hfirst
          · rw [List.mem_singleton.mp hi']
            exact (h.queue _ hin).admitted hfirst
        cases admitted with
        | true => exact hall i' hi'
        | false => exact hall i' (List.mem_append_left _ hi')
      · have hnone : [(⟨e,some j⟩ : Item)].filter (fun i => i.line.isNone) = [] := rfl
        show (if admitted = true then s.forwarded++[(⟨e,some j⟩ : Item)] else s.forwarded).filter _ =
          (s.consumed++[(⟨e,some j⟩ : Item)]).filter _
        rw [List.filter_append, hnone, List.append_nil, ← h.replaced]
        cases admitted with
        | true =>
          rw [if_pos rfl, List.filter_append, hnone, List.append_nil]
        | false => rfl

theorem step_inv (h : Inv s) {a : Act} (hok : Seamless s a) (ht : s.step a = some t) : Inv t := by
  unfold Stream.step at ht
  rw [if_neg (by simp [h.alive])] at ht
  cases a with
  | append l => exact append_inv h ht
  | start window => exact start_inv h ht
  | read => exact read_inv h ht
  | stop => exact stop_inv h ht
  | readReplaced entry => exact readReplaced_inv h ht
  | consume => exact consume_inv h hok ht

end Steps

section Runs

variable {s : Stream} {container uid : String} {tailLines : ℤ} {sinceSeconds : Option ℤ}
  {found : Option StreamCursor} {follows : ℕ} {as : List Act}

theorem opened_inv (hfound : ∀ c ∈ found, c.uid ≠ uid) :
    Inv (opened container tailLines sinceSeconds found uid follows) := by
  have hcursor : cursorFor found uid (follows+1) = { uid := uid, firstFollow := follows+1 } := by
    cases found with
    | none => rfl
    | some c => rw [cursorFor, if_neg (hfound c rfl)]
  exact
    { sorted := List.Pairwise.nil
      pod := by
        show (cursorFor _ _ _).uid = uid
        rw [hcursor]
      firstFollow := by
        show (cursorFor _ _ _).firstFollow ≤ follows+1
        rw [hcursor]
      opened := nofun
      queue := nofun
      forwarded := nofun
      replaced := rfl
      alive := rfl
      reads := ⟨none,⟨rfl,rfl,by
        show (cursorFor _ _ _).last = 0
        rw [hcursor]⟩,trivial,nofun,nofun⟩ }

theorem Inv.exact (h : Inv s) : Exact s where
  lines := by
    obtain ⟨prev,hreads,_⟩ := h.reads
    cases prev with
    | none =>
      have hfresh : Fresh s := hreads
      have hzero : s.furthest = 0 := by
        rw [Stream.furthest, hfresh.consumed]
        rfl
      rw [hfresh.forwarded, hzero, Nat.zero_sub]
      rfl
    | some q =>
      obtain ⟨p,n,hgoing⟩ := hreads
      rw [hgoing.first, hgoing.furthest]
      exact hgoing.forwarded
  contents i hi j hj := by
    obtain ⟨_,_,l,hl,hts,hcontent⟩ := (h.forwarded i hi).current j hj
    rw [hl, hts, hcontent]
    rfl
  replaced := h.replaced
  alive := h.alive

end Runs

/-- The stream of a Pod that is opened first. -/
def web : Stream := opened "app" 100 none none "uid-1" 0

/-- Nanoseconds after some second of this year. -/
def stamp (n : ℤ) : ℤ := 63926000000*second+n

/-- A container that writes lines, and a follow from a window that reads and sends some. -/
def writes (l : List Line) : List Act := l.map .append

def follow (window k : ℕ) : List Act :=
  .start window::(List.replicate k Act.read++[Act.stop]++List.replicate k Act.consume)

/-- A follow is resumed among lines of one timestamp. -/
def resumed : List Act :=
  writes [⟨stamp 5,"a"⟩,⟨stamp 5,"a"⟩]++follow 0 2++writes [⟨stamp 5,"a"⟩,⟨stamp 5,"b"⟩]++follow 0 4

/-- The window cuts two lines of one timestamp. -/
def cut : List Act := writes [⟨stamp 5,"a"⟩,⟨stamp 5,"b"⟩]++follow 1 1++follow 0 1

/-- A follow is opened before what the one before has queued is consumed. -/
def leftOut : List Act :=
  writes [⟨stamp 5,"a"⟩]++[Act.start 0, .read, .stop]++writes [⟨stamp 6,"b"⟩,⟨stamp 7,"c"⟩]++
    [Act.start 2, .read, .consume, .consume]

end Radar.PodLogs
