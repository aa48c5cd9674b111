import Ferry.Api.Route
import Ferry.Dispatch.Http
import Ferry.Proofs.Net.Segments
import Mathlib.Data.List.TakeWhile

/-!
# Whom an acknowledgment reaches

The id of a process stands in the middle of the address where its acknowledgment is
posted, as it is. Ids come from peers, and an address gives some characters a meaning of
their own: slashes and dots make segments, a question mark and a number sign end the path,
line breaks are dropped, and a percent sign before two digits is a byte. So the request
reaches the process just if its id has none of these (`acknowledged_iff`); all other ids,
with blanks, signs or letters of any kind, do arrive. Else the request reaches nobody, or
another process.
-/

namespace Ferry.HttpDispatcher

open Net Net.Percent Net.Url

/-- A host with its port, as it stands in an address. -/
structure Host where
  text : List Char
  nonempty : text ≠ []
  plain : ∀ c ∈ text, isSlash c = false ∧ isOuter c = false ∧ c ≠ '?' ∧ c ≠ '#'

/-- The address of a host, with any number of slashes after it. -/
def Host.address (host : Host) (slashes : Nat) : String :=
  "http://" ++ String.ofList host.text ++ String.ofList (List.replicate slashes '/')

/-- The request that a host gets of a post without a body. -/
def arriving (url : Url) : Api.HttpRequest := ⟨"POST", url.target, none, ""⟩

/-- The process that is acknowledged by a post to this address, if one is. -/
def acknowledged? (url : String) : Option String := do
  let request := arriving (← parse? url)
  let route ← Api.Route.ofPath? request.path
  match request.action route with
  | .ok (.acknowledge id) => some id
  | _ => none

/-- An id that means nothing to an address but itself. -/
structure Spliceable (processId : List Char) : Prop where
  nonempty : processId ≠ []
  not_dots : processId ≠ ['.'] ∧ processId ≠ ['.', '.']
  plain : ∀ c ∈ processId, c ∉ ['/', '\\', '?', '#', '\t', '\n', '\r']
  not_escapes : ¬ Escapes processId

/-! ## The post -/

/-- The characters of an address before the host. -/
def scheme : List Char := ['h', 't', 't', 'p', ':', '/', '/']

/-- The segments of the path before the id. -/
def collection : List (List Char) :=
  [['a', 'p', 'i'], ['v', '1'], ['t', 'r', 'a', 'n', 's', 'f', 'e', 'r', 's']]

/-- The segment after the id. -/
def verb : List Char := ['a', 'c', 'k', 'n', 'o', 'w', 'l', 'e', 'd', 'g', 'e']

/-- The path behind its first slash. -/
def route (processId : List Char) : List Char :=
  collection.flatMap (· ++ ['/']) ++ processId ++ '/' :: verb

theorem dropTrailing_address (host : Host) (slashes : Nat) :
    Text.dropTrailing '/' (host.address slashes) = String.ofList (scheme ++ host.text) := by
  obtain ⟨front, z, hz⟩ := (List.eq_nil_or_concat host.text).resolve_left host.nonempty
  have hslash : (z == '/') = false := by
    have hplain := (host.plain z (by simp [hz])).1
    simp only [isSlash, Bool.or_eq_false_iff, decide_eq_false_iff_not] at hplain
    exact beq_false_of_ne hplain.1
  have hall : ∀ c ∈ List.replicate slashes '/', (c == '/') = true := by
    intro c hc
    rw [List.eq_of_mem_replicate hc]
    rfl
  have hlist : (host.address slashes).toList.reverse =
      List.replicate slashes '/' ++ (z :: (scheme ++ front).reverse) := by
    simp [Host.address, hz, scheme]
  rw [Text.dropTrailing, hlist, List.dropWhile_append_of_pos hall, List.dropWhile_cons, hslash, hz]
  simp

/-- Where the acknowledgment goes: the slashes after the host make no difference. -/
def destination (host : Host) (processId : String) : String :=
  String.ofList (scheme ++ host.text ++ '/' :: route processId.toList)

theorem acknowledgePost_address (host : Host) (slashes : Nat) (processId : String) :
    acknowledgePost (host.address slashes) processId = .ok ⟨destination host processId, none⟩ := by
  have hfull : (host.address slashes).isEmpty = false := by
    simp [Host.address]
  have hurl : acknowledgeUrl (host.address slashes) processId = destination host processId := by
    rw [acknowledgeUrl, dropTrailing_address, destination, ← String.toList_inj]
    simp [route, collection, verb]
  rw [acknowledgePost, hfull, if_neg Bool.false_ne_true, hurl]

/-- Whoever carries the posts is given one to that address, and no other. -/
theorem acknowledge_posts (host : Host) (slashes : Nat) (processId : String) {σ : Type}
    (exchange : Post → σ → Except String PeerReply × σ) (m : Metrics) (s : σ) :
    (acknowledge exchange (host.address slashes) processId m s).2.2 =
      (exchange ⟨destination host processId, none⟩ s).2 := by
  rw [acknowledge, acknowledgePost_address]
  exact deliver_ok exchange _ _ m s

/-! ## The target -/

/-- A text without its line breaks, which an address drops. -/
def unbroken (cs : List Char) : List Char :=
  cs.filter fun c => c ≠ '\t' && c ≠ '\n' && c ≠ '\r'

/-- What a host gets to see of a text in an address. -/
def seen (cs : List Char) : List Char :=
  (unbroken cs).takeWhile (· != '#')

/-- What of it stands in the path. -/
def visible (cs : List Char) : List Char :=
  (seen cs).takeWhile (· != '?')

def queryOf (cs : List Char) : Option String :=
  match (seen cs).dropWhile (· != '?') with
  | '?' :: q => some (String.ofList q)
  | _ => none

theorem afterScheme?_scheme (cs : List Char) :
    afterScheme? (scheme ++ cs) = some (false, '/' :: '/' :: cs) := by
  simp [afterScheme?, scheme]

theorem unbroken_host (host : Host) : unbroken host.text = host.text := by
  refine List.filter_eq_self.2 fun c hc => ?_
  have houter := (host.plain c hc).2.1
  have hne : ∀ d, isOuter d = true → c ≠ d := by
    rintro d hd rfl
    rw [houter] at hd
    cases hd
  simp [hne '\t' (by decide), hne '\n' (by decide), hne '\r' (by decide)]

theorem dropWhile_host (host : Host) (cs : List Char) :
    ('/' :: '/' :: (host.text ++ cs)).dropWhile isSlash = host.text ++ cs := by
  obtain ⟨c, rest, hc⟩ := List.exists_cons_of_ne_nil host.nonempty
  have hslash : isSlash '/' = true := by decide
  have hplain := (host.plain c (by simp [hc])).1
  simp [hslash, hc, hplain]

theorem takeWhile_host (host : Host) {p : Char → Bool} (h : ∀ c ∈ host.text, p c = true)
    (cs : List Char) : (host.text ++ cs).takeWhile p = host.text ++ cs.takeWhile p :=
  List.takeWhile_append_of_pos h

theorem parse?_http (host : Host) (cs : List Char) {z : Char} (hz : isOuter z = false) :
    parse? (String.ofList (scheme ++ host.text ++ '/' :: (cs ++ [z]))) =
      some ⟨false, String.ofList host.text,
        String.ofList (normalPath ('/' :: visible (cs ++ [z]))), queryOf (cs ++ [z])⟩ := by
  have htrim : ((scheme ++ host.text ++ '/' :: (cs ++ [z])).dropWhile isOuter).reverse.dropWhile
      isOuter = (scheme ++ host.text ++ '/' :: (cs ++ [z])).reverse := by
    have hh : isOuter 'h' = false := by decide
    simp [scheme, hh, hz]
  have hfilter : (scheme ++ host.text ++ '/' :: (cs ++ [z])).filter
      (fun c => c ≠ '\t' && c ≠ '\n' && c ≠ '\r') =
        scheme ++ (host.text ++ '/' :: unbroken (cs ++ [z])) := by
    have hscheme : unbroken scheme = scheme := by decide
    show unbroken (scheme ++ host.text ++ '/' :: (cs ++ [z])) = _
    rw [unbroken, List.filter_append, List.filter_append, ← unbroken, ← unbroken, hscheme,
      unbroken_host, List.append_assoc]
    rfl
  have hsent : (host.text ++ '/' :: unbroken (cs ++ [z])).takeWhile (· != '#') =
      host.text ++ '/' :: seen (cs ++ [z]) := by
    rw [takeWhile_host host fun c hc => by simpa using (host.plain c hc).2.2.2]
    rfl
  have hhost : (host.text ++ '/' :: seen (cs ++ [z])).takeWhile (fun c => !isSlash c && c ≠ '?') =
      host.text := by
    rw [takeWhile_host host fun c hc => by
      simpa using ⟨(host.plain c hc).1, (host.plain c hc).2.2.1⟩]
    exact List.append_nil _
  have hfull : host.text.isEmpty = false := by
    simp [host.nonempty]
  unfold parse?
  simp only [String.toList_ofList, htrim, List.reverse_reverse, hfilter, afterScheme?_scheme,
    dropWhile_host, hsent, hhost, hfull, Option.bind_eq_bind, Option.bind_some, List.drop_left]
  rfl

/-- The path of the request is that of the address, whatever query comes after it. -/
theorem path_arriving {url : Url} {ss : List (List Char)}
    (hpath : url.path = String.ofList (joined ss)) :
    (arriving url).path = url.path := by
  have hsign : '#' ∉ joined ss := not_mem_joined (by decide) (by decide)
  have hmark : '?' ∉ joined ss := not_mem_joined (by decide) (by decide)
  have hstop : ∀ {c : Char} {cs : List Char}, c ∉ cs → ∀ x ∈ cs, (x != c) = true := by
    intro c cs hc x hx
    simp only [bne_iff_ne, ne_eq]
    rintro rfl
    exact hc hx
  rw [Api.HttpRequest.path, Api.HttpRequest.sent, arriving, target]
  cases hq : url.query with
  | none =>
      simp only [hpath, String.toList_ofList]
      rw [List.takeWhile_eq_self_iff.2 (hstop hsign), List.takeWhile_eq_self_iff.2 (hstop hmark)]
  | some q =>
      have hlist : (url.path ++ "?" ++ q).toList = joined ss ++ '?' :: q.toList := by
        simp [hpath]
      simp only [hlist]
      rw [List.takeWhile_append_of_pos (hstop hsign), List.takeWhile_cons_of_pos (by decide),
        List.takeWhile_append_of_pos (hstop hmark), hpath]
      simp

/-! ## The route -/

theorem visible_append {front : List Char}
    (h : ∀ c ∈ front, c ∉ ['?', '#', '\t', '\n', '\r']) (rest : List Char) :
    visible (front ++ rest) = front ++ visible rest := by
  have hbreaks : unbroken (front ++ rest) = front ++ unbroken rest := by
    rw [unbroken, List.filter_append, List.filter_eq_self.2]
    · rfl
    · intro c hc
      have hplain := h c hc
      grind
  rw [visible, seen, hbreaks, List.takeWhile_append_of_pos, List.takeWhile_append_of_pos]
  · rfl
  · intro c hc
    have hplain := h c hc
    grind
  · intro c hc
    have hplain := h c hc
    grind

/-- The segments that are left of a path with the id in it. -/
def left (processId : List Char) : List (List Char) :=
  followDots collection.reverse (segments (visible (processId ++ '/' :: verb)))

theorem followDots_route (processId : List Char) :
    followDots [] (segments (visible (route processId))) = left processId := by
  have hplain : ∀ c ∈ collection.flatMap (· ++ ['/']), c ∉ ['?', '#', '\t', '\n', '\r'] := by
    simp [collection]
  have hsegments : ∀ cs, segments (collection.flatMap (· ++ ['/']) ++ cs) =
      collection ++ segments cs := fun _ => rfl
  rw [route, List.append_assoc, visible_append hplain, hsegments]
  simp only [collection, List.cons_append, List.nil_append]
  rw [followDots_cons (by unfold IsDots; decide), followDots_cons (by unfold IsDots; decide),
    followDots_cons (by unfold IsDots; decide)]
  rfl

theorem ofSegments?_eq_acknowledge {ss : List String} {id : String} :
    Api.Route.ofSegments? ss = some (.acknowledge id) ↔
      ss = ["", "api", "v1", "transfers", id, "acknowledge"] ∧ id ≠ "" := by
  constructor
  · intro h
    unfold Api.Route.ofSegments? at h
    split at h <;> simp_all
    next id' => exact h.2 ▸ h.1
  · rintro ⟨rfl, hid⟩
    simp [Api.Route.ofSegments?, hid]

theorem action_eq_acknowledge {url : Url} {route : Api.Route} {id : String} :
    (arriving url).action route = .ok (.acknowledge id) ↔
      ∃ segment, route = .acknowledge segment ∧ decodeSegment? segment = some id := by
  cases route with
  | acknowledge segment =>
      simp only [Api.HttpRequest.action, arriving, Api.HttpRequest.readId, decide_true, if_true]
      cases hdecode : decodeSegment? segment <;> simp [Except.map, hdecode]
  | inbound =>
      simp only [Api.HttpRequest.action, decide_true, if_true, arriving]
      cases Api.HttpRequest.readBody _ _ <;> simp [Except.map]
  | transfers =>
      simp only [Api.HttpRequest.action, if_true, arriving]
      cases Api.HttpRequest.readBody _ _ <;> simp [Except.map]
  | health | config | metrics | transfer _ | status | start | stop =>
      simp [Api.HttpRequest.action, arriving]

/-- Who is acknowledged is told by the segments that are left of the path. -/
theorem acknowledged?_eq_some {host : Host} {processId id : String} :
    acknowledged? (destination host processId) = some id ↔
      ∃ segment, segment ≠ "" ∧ decodeSegment? segment = some id ∧
        (left processId.toList).map encodePath = collection ++ [segment.toList, verb] := by
  have hend : route processId.toList = collection.flatMap (· ++ ['/']) ++ processId.toList ++
      '/' :: verb.dropLast ++ ['e'] := by
    simp [route, verb]
  have hparse := parse?_http host (collection.flatMap (· ++ ['/']) ++ processId.toList ++
    '/' :: verb.dropLast) (z := 'e') (by decide)
  rw [← hend] at hparse
  have hroute : Api.Route.ofPath? (String.ofList (normalPath ('/' :: visible
      (route processId.toList)))) = Api.Route.ofSegments?
        ("" :: ((left processId.toList).map encodePath).map String.ofList) := by
    rw [Api.Route.ofPath?, String.toList_ofList, splitAll_normalPath, followDots_route]
    rfl
  have hwords : ∀ segment, ["", "api", "v1", "transfers", segment, "acknowledge"] =
      "" :: (collection ++ [segment.toList, verb]).map String.ofList := by
    intro segment
    simp [collection, verb]
  rw [acknowledged?, destination]
  simp only [Option.bind_eq_bind, Option.bind_some, hparse]
  rw [path_arriving rfl, hroute, Option.bind_eq_some_iff]
  constructor
  · rintro ⟨found, hfound, hmatch⟩
    split at hmatch
    · next id' haction =>
        cases hmatch
        obtain ⟨segment, rfl, hdecode⟩ := action_eq_acknowledge.1 haction
        obtain ⟨hsegments, hne⟩ := ofSegments?_eq_acknowledge.1 hfound
        rw [hwords, List.cons.injEq] at hsegments
        refine ⟨segment, hne, hdecode, ?_⟩
        exact List.map_injective_iff.2 (fun _ _ => String.ofList_inj.1) hsegments.2
    · cases hmatch
  · rintro ⟨segment, hne, hdecode, hsegments⟩
    refine ⟨.acknowledge segment, ?_, ?_⟩
    · rw [hsegments, ofSegments?_eq_acknowledge, hwords]
      exact ⟨rfl, hne⟩
    · rw [action_eq_acknowledge.2 ⟨segment, rfl, hdecode⟩]

/-! ## Ids that arrive -/

theorem bytes_injective {cs ds : List Char} (h : Utf8.encode cs = Utf8.encode ds) : cs = ds := by
  have hds := Utf8.decode?_eq_some.2 h
  rw [Utf8.decode?_eq_some.2 rfl] at hds
  exact (Option.some.inj hds).symm

theorem length_encode_le {cs ds : List Char} (h : cs.Sublist ds) :
    (Utf8.encode cs).length ≤ (Utf8.encode ds).length := by
  induction h with
  | slnil => exact Nat.le_refl _
  | cons c _ ih =>
      rw [length_encode_cons]
      omega
  | cons_cons c _ ih =>
      rw [length_encode_cons, length_encode_cons]
      omega

/-- A part of a text that is as long as the text is all of it. -/
theorem eq_of_sublist {cs ds : List Char} (h : cs.Sublist ds)
    (hle : (Utf8.encode ds).length ≤ (Utf8.encode cs).length) : cs = ds := by
  induction h with
  | slnil => rfl
  | cons c h ih =>
      have hlt := length_encode_le h
      have hpos := length_encodeChar_pos c
      rw [length_encode_cons] at hle
      omega
  | cons_cons c _ ih =>
      rw [length_encode_cons, length_encode_cons] at hle
      rw [ih (by omega)]

theorem visible_sublist (cs : List Char) : (visible cs).Sublist cs :=
  ((List.takeWhile_sublist _).trans (List.takeWhile_sublist _)).trans List.filter_sublist

theorem plain_of_mem_visible {cs : List Char} {c : Char} (h : c ∈ visible cs) :
    c ∉ ['?', '#', '\t', '\n', '\r'] := by
  have hmark := List.mem_takeWhile_imp h
  have hsign := List.mem_takeWhile_imp ((List.takeWhile_sublist _).subset h)
  have hbreak := List.of_mem_filter
    ((List.takeWhile_sublist _).subset ((List.takeWhile_sublist _).subset h))
  simp only [List.mem_cons, List.not_mem_nil, or_false]
  grind

theorem takeWhile_before {p : Char → Bool} (cs : List Char) {rest : List Char}
    (h : ∀ c ∈ rest, p c = true) :
    (cs ++ rest).takeWhile p = cs.takeWhile p ++ rest ∨
      (cs ++ rest).takeWhile p = cs.takeWhile p := by
  rw [List.takeWhile_append]
  split
  · next hall =>
      have hcs := (List.takeWhile_prefix p).eq_of_length hall
      rw [hcs, List.takeWhile_eq_self_iff.2 h]
      exact .inl rfl
  · exact .inr rfl

/-- The end of the path is seen behind the id, or the path is cut before it. -/
theorem visible_before (cs : List Char) :
    visible (cs ++ '/' :: verb) = visible cs ++ '/' :: verb ∨
      visible (cs ++ '/' :: verb) = visible cs := by
  have hunbroken : unbroken (cs ++ '/' :: verb) = unbroken cs ++ '/' :: verb := by
    rw [unbroken, List.filter_append]
    rfl
  rw [visible, seen, hunbroken]
  rcases takeWhile_before (p := (· != '#')) (unbroken cs)
    (show ∀ c ∈ '/' :: verb, (c != '#') = true by simp [verb]) with h | h
  · rw [h]
    exact takeWhile_before _ (by simp [verb])
  · rw [h]
    exact .inr rfl

/-- A segment of the path is the verb, or a part of what is seen of the id. -/
theorem mem_segments_visible {cs s : List Char}
    (h : s ∈ segments (visible (cs ++ '/' :: verb))) : s = verb ∨ s.Sublist (visible cs) := by
  rcases visible_before cs with hcs | hcs
  · rw [hcs, segments_append, List.mem_append] at h
    rcases h with h | h
    · exact .inr (slashless_of_mem_segments h).1
    · exact .inl (List.mem_singleton.1 h)
  · rw [hcs] at h
    exact .inr (slashless_of_mem_segments h).1

/-- The words of the path could be ids themselves. -/
theorem spliceable_word {cs : List Char} (h : cs ∈ verb :: collection) : Spliceable cs := by
  have hall : ∀ w ∈ verb :: collection,
      w ≠ [] ∧ (w ≠ ['.'] ∧ w ≠ ['.', '.']) ∧ bytesOf w = Utf8.encode w := by
    decide
  have hplain : ∀ w ∈ verb :: collection,
      ∀ c ∈ w, c ∉ ['/', '\\', '?', '#', '\t', '\n', '\r'] := by
    simp [verb, collection]
  obtain ⟨hne, hdots, hbytes⟩ := hall cs h
  exact ⟨hne, hdots, hplain cs h, bytesOf_eq_encode.1 hbytes⟩

theorem eq_of_word {cs s : List Char} (hs : s ∈ verb :: collection)
    (hbytes : Utf8.encode cs = bytesOf s) : cs = s := by
  rw [bytesOf_of_not_escapes (spliceable_word hs).not_escapes] at hbytes
  exact bytes_injective hbytes

theorem spliceable_of_mem_left {cs s : List Char} (hne : s ≠ []) (hs : s ∈ left cs)
    (hbytes : Utf8.encode cs = bytesOf s) : Spliceable cs := by
  rcases mem_of_mem_followDots hs with hs | ⟨hs, hdots⟩ | hs
  · have hword : s ∈ verb :: collection := List.mem_cons_of_mem _ (List.mem_reverse.1 hs)
    exact eq_of_word hword hbytes ▸ spliceable_word hword
  · have hslash := (slashless_of_mem_segments hs).2
    rcases mem_segments_visible hs with rfl | hsub
    · have hword : verb ∈ verb :: collection := List.mem_cons_self
      exact eq_of_word hword hbytes ▸ spliceable_word hword
    · have hle := length_bytesOf_le s
      rw [← hbytes] at hle
      obtain rfl := eq_of_sublist (hsub.trans (visible_sublist cs)) hle
      refine ⟨hne, ⟨?_, ?_⟩, ?_, bytesOf_eq_encode.1 hbytes.symm⟩
      · rintro rfl
        exact hdots (.inl rfl)
      · rintro rfl
        exact hdots (.inr rfl)
      · intro c hc
        have hplain := plain_of_mem_visible (hsub.subset hc)
        have hslash := hslash c hc
        grind [isSlash]
  · exact absurd hs hne

theorem left_of_spliceable {cs : List Char} (h : Spliceable cs) :
    left cs = collection ++ [cs, verb] := by
  have hvisible : visible (cs ++ '/' :: verb) = cs ++ '/' :: verb := by
    rw [visible_append fun c hc hmem => h.plain c hc (by simp at hmem ⊢; simp [hmem])]
    rfl
  have hslash : ∀ c ∈ cs, isSlash c = false := by
    intro c hc
    have hplain := h.plain c hc
    grind [isSlash]
  have hdots : ¬ IsDots cs := by
    rw [IsDots, plainDots_of_not_escapes h.not_escapes]
    exact not_or.2 h.not_dots
  rw [left, hvisible, segments_append, segments_of_slashless hslash, List.singleton_append,
    followDots_cons hdots]
  exact followDots_cons (by unfold IsDots; decide) []

/-- A post to the peer's address reaches the process just if the id means nothing there but
itself. -/
theorem acknowledged?_destination (host : Host) (processId : String) :
    acknowledged? (destination host processId) = some processId ↔
      Spliceable processId.toList := by
  rw [acknowledged?_eq_some]
  constructor
  · rintro ⟨segment, hne, hdecode, hleft⟩
    have hmem : segment.toList ∈ (left processId.toList).map encodePath := by
      rw [hleft]
      simp
    obtain ⟨s, hs, hsegment⟩ := List.mem_map.1 hmem
    rw [← String.ofList_toList (s := segment), ← hsegment] at hne hdecode
    refine spliceable_of_mem_left ?_ hs (decodeSegment?_encodePath.1 hdecode)
    rintro rfl
    exact hne rfl
  · intro h
    have hdecode := decodeSegment?_encodePath.2 (bytesOf_eq_encode.2 h.not_escapes).symm
    refine ⟨String.ofList (encodePath processId.toList), ?_, hdecode, ?_⟩
    · intro hempty
      rw [hempty] at hdecode
      have hbytes := (@decodeSegment?_encodePath [] processId).1 hdecode
      exact h.nonempty (bytes_injective hbytes)
    · rw [left_of_spliceable h, String.toList_ofList, List.map_append]
      rfl

/-- Whoever carries the posts is given just one, and it acknowledges the process whose id it was
made for if and only if that id can be spliced. -/
theorem acknowledged_iff (host : Host) (slashes : Nat) (processId : String) :
    ∃ url, (∀ (σ : Type) (exchange : Post → σ → Except String PeerReply × σ) (m : Metrics) (s : σ),
        (acknowledge exchange (host.address slashes) processId m s).2.2 =
          (exchange ⟨url, none⟩ s).2) ∧
      (acknowledged? url = some processId ↔ Spliceable processId.toList) :=
  ⟨destination host processId, fun _ => acknowledge_posts host slashes processId,
    acknowledged?_destination host processId⟩

/-- A percent sign in an id may lead to somebody else. -/
theorem acknowledged_another :
    (∀ (σ : Type) (exchange : Post → σ → Except String PeerReply × σ) (m : Metrics) (s : σ),
      (acknowledge exchange "http://peer.example:8080" "job-%41" m s).2.2 =
        (exchange ⟨"http://peer.example:8080/api/v1/transfers/job-%41/acknowledge", none⟩ s).2) ∧
    acknowledged? "http://peer.example:8080/api/v1/transfers/job-%41/acknowledge" =
      some "job-A" := by
  have hurl : acknowledgeUrl "http://peer.example:8080" "job-%41" =
      "http://peer.example:8080/api/v1/transfers/job-%41/acknowledge" := by decide +kernel
  refine ⟨fun σ exchange m s => ?_, by decide +kernel⟩
  rw [acknowledge, acknowledgePost, if_neg (by decide +kernel), hurl]
  exact deliver_ok exchange _ _ m s

end Ferry.HttpDispatcher
