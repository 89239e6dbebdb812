import Roxo.Server.IpAddr

/-!
# The defence against DNS rebinding

Which `Host` and `Origin` headers the server accepts. A bind address is to count as its canonical
form. It does, except where an IPv4-mapped loopback address has no extra hosts, which turns the
check off, and where the mapped `0.0.0.0` has some, which makes it an address to connect to
(`defended_iff`).
-/

namespace Roxo.Origin

/-! ## Hosts -/

/-- Strips the brackets of an IPv6 literal and its zone. -/
def normalizeHost (host : String) : String :=
  let chars :=
    match host.toList with
    | '[' :: rest => if rest.getLast? = some ']' then rest.dropLast else '[' :: rest
    | chars => chars
  String.ofList (chars.takeWhile (· ≠ '%'))

/-- `char::is_whitespace`. -/
def isWhitespace (c : Char) : Bool :=
  let n := c.toNat
  (9 ≤ n && n ≤ 13) || n = 0x20 || n = 0x85 || n = 0xa0 || n = 0x1680 ||
    (0x2000 ≤ n && n ≤ 0x200a) || n = 0x2028 || n = 0x2029 || n = 0x202f || n = 0x205f ||
    n = 0x3000

def trim (s : String) : String :=
  String.ofList (((s.toList.dropWhile isWhitespace).reverse.dropWhile isWhitespace).reverse)

def eqIgnoreAsciiCase (s t : String) : Bool := s.toList.map Char.toLower = t.toList.map Char.toLower

/-- Collapses an IPv4-mapped IPv6 address. -/
def canonical (ip : IpAddr) : IpAddr :=
  match ip with
  | .v6 addr => (addr.toIpv4Mapped.map IpAddr.v4).getD ip
  | v4 => v4

def isPrivateBind (ip : IpAddr) : Bool :=
  match canonical ip with
  | .v4 addr => addr.isPrivate || addr.isLinkLocal
  | .v6 addr => addr.a &&& 0xfe00 = 0xfc00 || addr.a &&& 0xffc0 = 0xfe80

structure AllowedHosts where
  port : UInt16
  bindIp : Option IpAddr
  extraHosts : List String
  deriving DecidableEq, Repr

namespace AllowedHosts

/-- The two are the same address, or the same name. -/
def sameHost (host allowed : String) : Bool :=
  match (IpAddr.parse host).map canonical, (IpAddr.parse allowed).map canonical with
  | some ip, some ip' => ip = ip'
  | _, _ => eqIgnoreAsciiCase host allowed

def allowsExtra (hosts : AllowedHosts) (host : String) : Bool :=
  hosts.extraHosts.any (sameHost host)

def allows (hosts : AllowedHosts) (host : String) (port : Option UInt16) : Bool :=
  let host := normalizeHost host
  (eqIgnoreAsciiCase host "localhost" ||
    ((IpAddr.parse host).map canonical).any (fun ip => ip.isLoopback || hosts.bindIp = some ip) ||
    hosts.allowsExtra host) && port.all (· = hosts.port)

end AllowedHosts

/-- The extra hosts that are left when blank ones are dropped. -/
def listed (extra : List String) : List String :=
  (extra.map fun host => normalizeHost (trim host)).filter (· ≠ "")

def allowedHosts (bind : IpAddr) (port : UInt16) (extra : List String) : Option AllowedHosts :=
  let extraHosts := listed extra
  if bind.isLoopback then some { port, bindIp := none, extraHosts }
  else if isPrivateBind bind then some { port, bindIp := some (canonical bind), extraHosts }
  else if extraHosts ≠ [] then
    some { port, bindIp := if bind.isUnspecified then none else some (canonical bind), extraHosts }
  else none

/-! ## Requests -/

/-- `Authority`: its text, and the host and the port in it. -/
structure Authority where
  text : String
  host : String
  port : Option UInt16
  deriving DecidableEq, Repr

/-- The parsers of the `http` crate. -/
class HttpUri where
  authority : String → Option Authority
  /-- A `Uri` with the authority that it may have. -/
  uri : String → Option (Option Authority)
  /-- A name in digits and dots is a host. -/
  authority_name : ∀ s : String, s ≠ "" → (∀ c ∈ s.toList, c.isDigit ∨ c = '.') →
    authority s = some ⟨s, s, none⟩

/-- The names of headers are in lower case. -/
structure Request where
  headers : List (String × List UInt8)

def Request.get (request : Request) (name : String) : Option (List UInt8) :=
  (request.headers.find? fun header => header.1 = name).map Prod.snd

/-- `HeaderValue::to_str`, of visible ASCII characters only. -/
def toStr (value : List UInt8) : Option String :=
  if value.all fun b => (32 ≤ b && b < 127) || b = 9 then
    some (String.ofList (value.map fun b => Char.ofNat b.toNat))
  else none

structure Response where
  status : ℕ
  contentType : String
  body : String
  deriving DecidableEq, Repr

def reject : Response := ⟨404, "text/plain", "Not Found"⟩

section Check

variable [HttpUri]

def rejectUserinfo (authority : Authority) : Option Unit :=
  if '@' ∈ authority.text.toList then none else some ()

def parseAuthority (value : String) : Option (String × Option UInt16) := do
  let authority ← HttpUri.authority value
  rejectUserinfo authority
  some (authority.host, authority.port)

def parseOrigin (value : String) : Option (String × Option UInt16) := do
  let uri ← HttpUri.uri value
  let authority ← uri
  rejectUserinfo authority
  some (authority.host, authority.port)

/-- The response to a request that is not let through. -/
def checkRequestOrigin (request : Request) (allowed : Option AllowedHosts) : Option Response :=
  match allowed with
  | none => none
  | some allowed =>
    let hostOk := (((request.get "host").bind toStr).bind parseAuthority).any fun host =>
      allowed.allows host.1 host.2
    if hostOk = false then some reject
    else
      match request.get "origin" with
      | none => none
      | some origin =>
        let originOk := ((toStr origin).bind parseOrigin).any fun host =>
          allowed.allows host.1 host.2
        if originOk = false then some reject else none

/-- The request is let through. -/
def Accepts (allowed : Option AllowedHosts) (request : Request) : Prop :=
  checkRequestOrigin request allowed = none

/-! ## The purpose -/

/-- The host is `localhost`, a loopback address, the bind address or an extra host. -/
def LocalHost (bind : IpAddr) (extra : List String) (host : String) : Prop :=
  eqIgnoreAsciiCase (normalizeHost host) "localhost" ∨
    (∃ ip, IpAddr.parse (normalizeHost host) = some ip ∧
      ((canonical ip).isLoopback ∨ canonical ip = canonical bind)) ∨
    ∃ allowed ∈ extra, AllowedHosts.sameHost (normalizeHost host) (normalizeHost (trim allowed))

/-- What an authority has to be. -/
structure Trusted (bind : IpAddr) (port : UInt16) (extra : List String) (authority : Authority) :
    Prop where
  userinfo : '@' ∉ authority.text.toList
  port : ∀ p, authority.port = some p → p = port
  host : LocalHost bind extra authority.host

/-- There is a trusted host, and a trusted origin if there is one. -/
structure Confined (bind : IpAddr) (port : UInt16) (extra : List String) (request : Request) :
    Prop where
  host : ∃ value s authority, request.get "host" = some value ∧ toStr value = some s ∧
    HttpUri.authority s = some authority ∧ Trusted bind port extra authority
  origin : ∀ value, request.get "origin" = some value → ∃ s authority, toStr value = some s ∧
    HttpUri.uri s = some (some authority) ∧ Trusted bind port extra authority

/-- A mapped address is treated as its canonical form, the check is on where the address is local or
a host is listed, and where it is on it confines what is accepted. -/
structure Defended (bind : IpAddr) (port : UInt16) (extra : List String) : Prop where
  canonical : ∀ request, Accepts (allowedHosts bind port extra) request ↔
    Accepts (allowedHosts (canonical bind) port extra) request
  enforced : (Origin.canonical bind).isLoopback ∨ isPrivateBind bind ∨ listed extra ≠ [] →
    (allowedHosts bind port extra).isSome
  confined : ∀ allowed, allowedHosts bind port extra = some allowed → ∀ request,
    Accepts (some allowed) request → Confined bind port extra request

/-! ## What is accepted -/

variable {bind : IpAddr} {port : UInt16} {extra : List String} {allowed : AllowedHosts}
  {request : Request}

theorem parseAuthority_eq_some {s host : String} {p : Option UInt16} :
    parseAuthority s = some (host, p) ↔ ∃ authority, HttpUri.authority s = some authority ∧
      '@' ∉ authority.text.toList ∧ authority.host = host ∧ authority.port = p := by
  unfold parseAuthority rejectUserinfo
  cases HttpUri.authority s with
  | none => simp
  | some authority => by_cases h : '@' ∈ authority.text.toList <;> simp [h]

theorem parseOrigin_eq_some {s host : String} {p : Option UInt16} :
    parseOrigin s = some (host, p) ↔ ∃ authority, HttpUri.uri s = some (some authority) ∧
      '@' ∉ authority.text.toList ∧ authority.host = host ∧ authority.port = p := by
  unfold parseOrigin rejectUserinfo
  cases HttpUri.uri s with
  | none => simp
  | some uri =>
    cases uri with
    | none => simp
    | some authority => by_cases h : '@' ∈ authority.text.toList <;> simp [h]

/-- The host of an accepted request, and its origin, are allowed. -/
theorem accepts_some_iff : Accepts (some allowed) request ↔
    (∃ value s host, request.get "host" = some value ∧ toStr value = some s ∧
      parseAuthority s = some host ∧ allowed.allows host.1 host.2) ∧
    ∀ value, request.get "origin" = some value → ∃ s host, toStr value = some s ∧
      parseOrigin s = some host ∧ allowed.allows host.1 host.2 := by
  have hhost : ((((request.get "host").bind toStr).bind parseAuthority).any fun host =>
      allowed.allows host.1 host.2) = true ↔ ∃ value s host, request.get "host" = some value ∧
        toStr value = some s ∧ parseAuthority s = some host ∧ allowed.allows host.1 host.2 := by
    simp only [Option.any_eq_true, Option.bind_eq_some_iff]
    constructor
    · rintro ⟨host, ⟨s, ⟨value, hvalue, hs⟩, hparse⟩, hallows⟩
      exact ⟨value, s, host, hvalue, hs, hparse, hallows⟩
    · rintro ⟨value, s, host, hvalue, hs, hparse, hallows⟩
      exact ⟨host, ⟨s, ⟨value, hvalue, hs⟩, hparse⟩, hallows⟩
  have horigin : ∀ value, (((toStr value).bind parseOrigin).any fun host =>
      allowed.allows host.1 host.2) = true ↔ ∃ s host, toStr value = some s ∧
        parseOrigin s = some host ∧ allowed.allows host.1 host.2 := by
    intro value
    simp only [Option.any_eq_true, Option.bind_eq_some_iff]
    constructor
    · rintro ⟨host, ⟨s, hs, hparse⟩, hallows⟩
      exact ⟨s, host, hs, hparse, hallows⟩
    · rintro ⟨s, host, hs, hparse, hallows⟩
      exact ⟨host, ⟨s, hs, hparse⟩, hallows⟩
  rw [← hhost]
  unfold Accepts checkRequestOrigin
  dsimp only
  split
  · next hno =>
    rw [hno]
    exact iff_of_false (fun h => nomatch h) fun h => nomatch h.1
  · next hyes =>
    rw [Bool.not_eq_false] at hyes
    cases ho : request.get "origin" with
    | none => exact iff_of_true rfl ⟨hyes, fun value h => nomatch h⟩
    | some origin =>
      have hall : (∀ value, some origin = some value → ∃ s host, toStr value = some s ∧
          parseOrigin s = some host ∧ allowed.allows host.1 host.2) ↔
          (((toStr origin).bind parseOrigin).any fun host =>
            allowed.allows host.1 host.2) = true := by
        rw [horigin]
        exact ⟨fun h => h origin rfl, fun h value hv => Option.some.inj hv ▸ h⟩
      rw [hall]
      dsimp only
      split
      · next hno =>
        rw [hno]
        exact iff_of_false (fun h => nomatch h) fun h => nomatch h.2
      · next hok => exact iff_of_true rfl ⟨hyes, by rwa [Bool.not_eq_false] at hok⟩

omit [HttpUri] in
theorem allows_iff {host : String} {p : Option UInt16} : allowed.allows host p ↔
    (eqIgnoreAsciiCase (normalizeHost host) "localhost" ∨
      (∃ ip, IpAddr.parse (normalizeHost host) = some ip ∧
        ((canonical ip).isLoopback ∨ allowed.bindIp = some (canonical ip))) ∨
      ∃ name ∈ allowed.extraHosts, AllowedHosts.sameHost (normalizeHost host) name) ∧
    ∀ q, p = some q → q = allowed.port := by
  unfold AllowedHosts.allows AllowedHosts.allowsExtra
  simp only [Bool.and_eq_true, Bool.or_eq_true, or_assoc, Option.any_eq_true, Option.all_eq_true,
    List.any_eq_true, Option.map_eq_some_iff, decide_eq_true_eq]
  refine and_congr_left' (or_congr Iff.rfl (or_congr ?_ Iff.rfl))
  constructor
  · rintro ⟨_, ⟨ip, hip, rfl⟩, hok⟩
    exact ⟨ip, hip, hok⟩
  · rintro ⟨ip, hip, hok⟩
    exact ⟨_, ⟨ip, hip, rfl⟩, hok⟩

omit [HttpUri] in
theorem mem_listed {name : String} :
    name ∈ listed extra ↔ (∃ host ∈ extra, normalizeHost (trim host) = name) ∧ name ≠ "" := by
  unfold listed
  rw [List.mem_filter, List.mem_map, decide_eq_true_eq]

omit [HttpUri] in
/-- What an allowlist is built from. -/
theorem of_allowedHosts (h : allowedHosts bind port extra = some allowed) :
    allowed.port = port ∧ allowed.extraHosts = listed extra ∧
      ∀ ip, allowed.bindIp = some ip → ip = canonical bind := by
  unfold allowedHosts at h
  dsimp only at h
  split at h
  · cases h
    exact ⟨rfl, rfl, fun ip h => nomatch h⟩
  · split at h
    · cases h
      exact ⟨rfl, rfl, fun ip h => (Option.some.inj h).symm⟩
    · split at h
      · cases h
        refine ⟨rfl, rfl, fun ip h => ?_⟩
        dsimp only at h
        split at h
        · cases h
        · exact (Option.some.inj h).symm
      · cases h

omit [HttpUri] in
theorem trusted_of_allows (h : allowedHosts bind port extra = some allowed) {authority : Authority}
    (huser : '@' ∉ authority.text.toList) (hallows : allowed.allows authority.host authority.port) :
    Trusted bind port extra authority := by
  obtain ⟨hport, hextra, hbind⟩ := of_allowedHosts h
  obtain ⟨hhost, hp⟩ := allows_iff.mp hallows
  refine ⟨huser, fun q hq => (hp q hq).trans hport, ?_⟩
  rcases hhost with hlocal | ⟨ip, hip, hok⟩ | ⟨name, hname, hsame⟩
  · exact .inl hlocal
  · exact .inr (.inl ⟨ip, hip, hok.imp_right fun h => hbind _ h⟩)
  · rw [hextra] at hname
    obtain ⟨⟨host, hmem, rfl⟩, -⟩ := mem_listed.mp hname
    exact .inr (.inr ⟨host, hmem, hsame⟩)

/-- Where the check is on, it confines what is accepted. -/
theorem confined_of_accepts (h : allowedHosts bind port extra = some allowed)
    (haccepts : Accepts (some allowed) request) : Confined bind port extra request := by
  obtain ⟨⟨value, s, host, hvalue, hs, hparse, hallows⟩, horigin⟩ := accepts_some_iff.mp haccepts
  refine ⟨?_, fun value hvalue => ?_⟩
  · obtain ⟨authority, hauth, huser, hhost, hport⟩ := parseAuthority_eq_some.mp hparse
    rw [← hhost, ← hport] at hallows
    exact ⟨value, s, authority, hvalue, hs, hauth, trusted_of_allows h huser hallows⟩
  · obtain ⟨s, host, hs, hparse, hallows⟩ := horigin value hvalue
    obtain ⟨authority, huri, huser, hhost, hport⟩ := parseOrigin_eq_some.mp hparse
    rw [← hhost, ← hport] at hallows
    exact ⟨s, authority, hs, huri, trusted_of_allows h huser hallows⟩

/-! ## Mapped addresses -/

omit [HttpUri] in
theorem canonical_cases (bind : IpAddr) : canonical bind = bind ∨ ∃ addr addr',
    bind = .v6 addr ∧ addr.toIpv4Mapped = some addr' ∧ canonical bind = .v4 addr' := by
  cases bind with
  | v4 addr => exact .inl rfl
  | v6 addr =>
    cases h : addr.toIpv4Mapped with
    | none => exact .inl (by simp [canonical, h])
    | some addr' => exact .inr ⟨addr, addr', rfl, h, by simp [canonical, h]⟩

omit [HttpUri] in
/-- A mapped address looks neither like a loopback address nor unspecified. -/
theorem of_mapped {addr : Ipv6Addr} {addr' : Ipv4Addr} (h : addr.toIpv4Mapped = some addr') :
    (IpAddr.v6 addr).isLoopback = false ∧ (IpAddr.v6 addr).isUnspecified = false := by
  constructor
  · refine decide_eq_false ?_
    rintro rfl
    cases h
  · refine decide_eq_false ?_
    rintro rfl
    cases h

omit [HttpUri] in
theorem isPrivateBind_mapped {addr' : Ipv4Addr} (h : canonical bind = .v4 addr') :
    isPrivateBind bind = isPrivateBind (.v4 addr') := by
  unfold isPrivateBind
  rw [h]
  rfl

omit [HttpUri] in
theorem isPrivateBind_of_isLoopback {addr : Ipv4Addr} (h : addr.isLoopback) :
    isPrivateBind (.v4 addr) = false := by
  have ha : addr.a = 127 := of_decide_eq_true h
  unfold isPrivateBind canonical Ipv4Addr.isPrivate Ipv4Addr.isLinkLocal
  simp [ha]

/-- What is accepted depends on which hosts are allowed. -/
theorem accepts_congr {allowed' : AllowedHosts}
    (h : ∀ host p, allowed.allows host p = allowed'.allows host p) :
    Accepts (some allowed) request ↔ Accepts (some allowed') request := by
  rw [accepts_some_iff, accepts_some_iff]
  simp only [h]

omit [HttpUri] in
/-- An address to bind to is not needed where it is a loopback address or an extra host. -/
theorem allows_bindIp {ip : IpAddr} {names : List String}
    (h : ip.isLoopback ∨ ∃ name ∈ names, (IpAddr.parse name).map canonical = some ip)
    (host : String) (p : Option UInt16) :
    AllowedHosts.allows ⟨port, some ip, names⟩ host p =
      AllowedHosts.allows ⟨port, none, names⟩ host p := by
  rw [Bool.eq_iff_iff, allows_iff, allows_iff]
  refine and_congr_left' (or_congr_right ⟨?_, ?_⟩)
  · rintro (⟨ip', hip, hloop | hbind⟩ | hname)
    · exact .inl ⟨ip', hip, .inl hloop⟩
    · have heq : ip = canonical ip' := Option.some.inj hbind
      rcases h with hloop | ⟨name, hmem, hname⟩
      · exact .inl ⟨ip', hip, .inl (heq ▸ hloop)⟩
      · refine .inr ⟨name, hmem, ?_⟩
        unfold AllowedHosts.sameHost
        rw [hip, hname, heq]
        exact decide_eq_true rfl
    · exact .inr hname
  · rintro (⟨ip', hip, hloop | hbind⟩ | hname)
    · exact .inl ⟨ip', hip, .inl hloop⟩
    · cases hbind
    · exact .inr hname

/-- The request with a `Host` header that is the address `0.0.0.0`. -/
def anyAddress : Request := ⟨[("host", [48, 46, 48, 46, 48, 46, 48])]⟩

theorem accepts_anyAddress_iff : Accepts (some allowed) anyAddress ↔
    allowed.allows "0.0.0.0" none := by
  rw [accepts_some_iff]
  have hstr : toStr [48, 46, 48, 46, 48, 46, 48] = some "0.0.0.0" := by decide +kernel
  have hparse : parseAuthority "0.0.0.0" = some ("0.0.0.0", none) := by
    refine parseAuthority_eq_some.mpr ⟨_, HttpUri.authority_name "0.0.0.0" ?_ ?_, ?_, rfl, rfl⟩
    · decide
    · have hall : "0.0.0.0".toList.all (fun c => c.isDigit || c = '.') = true := by decide +kernel
      simpa only [List.all_eq_true, Bool.or_eq_true, decide_eq_true_eq] using hall
    · decide +kernel
  constructor
  · rintro ⟨⟨value, s, host, hvalue, hs, hhost, hallows⟩, -⟩
    cases hvalue
    rw [hstr] at hs
    cases hs
    rw [hparse] at hhost
    cases hhost
    exact hallows
  · exact fun hallows => ⟨⟨_, _, _, rfl, hstr, hparse, hallows⟩, fun _ h => nomatch h⟩

omit [HttpUri] in
theorem parse_anyAddress : IpAddr.parse (normalizeHost "0.0.0.0") = some (.v4 .unspecified) := by
  decide +kernel

omit [HttpUri] in
theorem eq_of_toLower {c d : Char} (h : c.toLower = d) (hd : d.toNat < 97) : c = d := by
  unfold Char.toLower at h
  split at h
  · next hupper =>
    subst h
    exfalso
    obtain ⟨hlow, hhigh⟩ := hupper
    have h1 : 65 ≤ c.val.toNat := hlow
    have h2 : c.val.toNat ≤ 90 := hhigh
    have hval : (c.val + ('a'.val - 'A'.val)).toNat < 97 := hd
    rw [UInt32.toNat_add] at hval
    have h3 : ('a'.val - 'A'.val : UInt32).toNat = 32 := rfl
    omega
  · exact h

omit [HttpUri] in
/-- A text without letters is in lower case only if it is itself. -/
theorem eq_of_map_toLower {l l' : List Char} (hlt : ∀ d ∈ l', d.toNat < 97)
    (h : l' = l.map Char.toLower) : l = l' := by
  induction l generalizing l' with
  | nil => exact h.symm
  | cons c l ih =>
    subst h
    rw [List.map_cons] at hlt ⊢
    rw [← ih (fun d hd => hlt d (List.mem_cons_of_mem _ hd)) rfl,
      ← eq_of_toLower rfl (hlt _ List.mem_cons_self)]

omit [HttpUri] in
/-- What is the same as `0.0.0.0` is read as that address. -/
theorem parse_of_sameHost {name : String}
    (h : AllowedHosts.sameHost (normalizeHost "0.0.0.0") name) :
    (IpAddr.parse name).map canonical = some (.v4 .unspecified) := by
  unfold AllowedHosts.sameHost at h
  rw [parse_anyAddress] at h
  cases hp : (IpAddr.parse name).map canonical with
  | some ip =>
    rw [hp] at h
    exact congrArg some (of_decide_eq_true h).symm
  | none =>
    rw [hp] at h
    have hchars : ['0', '.', '0', '.', '0', '.', '0'] = name.toList.map Char.toLower :=
      of_decide_eq_true h
    have hlow : ['0', '.', '0', '.', '0', '.', '0'].all (fun d => d.toNat < 97) = true := rfl
    have hname : name.toList = ['0', '.', '0', '.', '0', '.', '0'] :=
      eq_of_map_toLower (fun d hd => of_decide_eq_true (List.all_eq_true.mp hlow d hd)) hchars
    rw [show name = "0.0.0.0" from String.toList_injective hname] at hp
    exact absurd hp (by decide +kernel)

omit [HttpUri] in
theorem allowedHosts_unspecified (h : listed extra ≠ []) :
    allowedHosts (.v4 .unspecified) port extra = some ⟨port, none, listed extra⟩ := by
  unfold allowedHosts
  dsimp only
  rw [if_neg (by decide), if_neg (by decide), if_pos h, if_pos (by decide)]

omit [HttpUri] in
theorem allowedHosts_mapped {addr : Ipv4Addr} (hloop : bind.isLoopback = false)
    (hunspec : bind.isUnspecified = false) (hc : canonical bind = .v4 addr) :
    allowedHosts bind port extra =
      if isPrivateBind (.v4 addr) ∨ listed extra ≠ [] then
        some ⟨port, some (.v4 addr), listed extra⟩
      else none := by
  unfold allowedHosts
  rw [hloop, hunspec, hc, isPrivateBind_mapped hc]
  by_cases hp : isPrivateBind (.v4 addr) = true <;> by_cases hl : listed extra = [] <;>
    simp [hp, hl]

omit [HttpUri] in
/-- The check is on where it has to be, for a canonical address. -/
theorem isSome_allowedHosts (hlocal : bind.isLoopback ∨ isPrivateBind bind ∨ listed extra ≠ []) :
    (allowedHosts bind port extra).isSome := by
  unfold allowedHosts
  dsimp only
  split
  · rfl
  · next hloop =>
    split
    · rfl
    · next hpriv =>
      rw [if_pos ((hlocal.resolve_left hloop).resolve_left hpriv)]
      rfl

/-- A mapped address and its form are told apart by nothing but the two cases. -/
theorem accepts_mapped_iff {addr : Ipv4Addr} (hloop : bind.isLoopback = false)
    (hunspec : bind.isUnspecified = false) (hc : canonical bind = .v4 addr)
    (hoff : ¬ (addr.isLoopback ∧ listed extra = []))
    (hany : ¬ (addr = .unspecified ∧ listed extra ≠ [] ∧ ∀ name ∈ listed extra,
      (IpAddr.parse name).map canonical ≠ some (.v4 .unspecified))) :
    Accepts (allowedHosts bind port extra) request ↔
      Accepts (allowedHosts (.v4 addr) port extra) request := by
  rw [allowedHosts_mapped hloop hunspec hc]
  unfold allowedHosts
  dsimp only
  by_cases hl : addr.isLoopback
  · have hlisted : listed extra ≠ [] := fun h => hoff ⟨hl, h⟩
    rw [if_pos (.inr hlisted), if_pos (show (IpAddr.v4 addr).isLoopback = true from hl)]
    exact accepts_congr (allows_bindIp (.inl hl))
  · rw [if_neg (show ¬ (IpAddr.v4 addr).isLoopback = true from hl)]
    by_cases hp : isPrivateBind (.v4 addr) = true
    · rw [if_pos (.inl hp), if_pos hp]
      rfl
    · rw [if_neg hp]
      by_cases hlisted : listed extra = []
      · rw [if_neg (not_or.mpr ⟨hp, not_not.mpr hlisted⟩), if_neg (not_not.mpr hlisted)]
      · rw [if_pos (.inr hlisted), if_pos hlisted]
        by_cases hu : addr = .unspecified
        · have hname : ∃ name ∈ listed extra,
              (IpAddr.parse name).map canonical = some (.v4 addr) := by
            by_contra hno
            refine hany ⟨hu, hlisted, fun name hmem heq => hno ⟨name, hmem, ?_⟩⟩
            rw [heq, hu]
          rw [if_pos (show (IpAddr.v4 addr).isUnspecified = true from decide_eq_true hu)]
          exact accepts_congr (allows_bindIp (.inr hname))
        · rw [if_neg (show ¬ (IpAddr.v4 addr).isUnspecified = true from
            fun h => hu (of_decide_eq_true h))]
          rfl

/-- **The server is defended exactly if the address is canonical, or a mapped one whose form makes
no difference.** -/
theorem defended_iff (bind : IpAddr) (port : UInt16) (extra : List String) :
    Defended bind port extra ↔ canonical bind = bind ∨
      ¬ ((canonical bind).isLoopback ∧ listed extra = []) ∧
      ¬ (canonical bind = .v4 .unspecified ∧ listed extra ≠ [] ∧ ∀ name ∈ listed extra,
        (IpAddr.parse name).map canonical ≠ some (.v4 .unspecified)) := by
  have hconfined : ∀ allowed, allowedHosts bind port extra = some allowed → ∀ request,
      Accepts (some allowed) request → Confined bind port extra request :=
    fun allowed h request haccepts => confined_of_accepts h haccepts
  rcases canonical_cases bind with hc | ⟨addr, addr', rfl, hmapped, hc⟩
  · refine iff_of_true ⟨fun request => by rw [hc], fun h => ?_, hconfined⟩ (.inl hc)
    rw [hc] at h
    exact isSome_allowedHosts h
  · obtain ⟨hloop, hunspec⟩ := of_mapped hmapped
    have hne : ¬ canonical (.v6 addr) = .v6 addr := by
      rw [hc]
      exact fun h => nomatch h
    rw [or_iff_right hne, hc]
    constructor
    · intro h
      refine ⟨fun ⟨hl, hlisted⟩ => ?_, fun ⟨hu, hlisted, hnames⟩ => ?_⟩
      · -- the check is off
        have hsome := h.enforced (.inl (by rw [hc]; exact hl))
        rw [allowedHosts_mapped hloop hunspec hc, if_neg] at hsome
        · cases hsome
        · rw [isPrivateBind_of_isLoopback hl, hlisted]
          simp
      · -- the form accepts `0.0.0.0`, the address does not
        cases IpAddr.v4.inj hu
        have hiff := h.canonical anyAddress
        rw [hc, allowedHosts_mapped hloop hunspec hc, if_pos (.inr hlisted),
          allowedHosts_unspecified hlisted, accepts_anyAddress_iff, accepts_anyAddress_iff] at hiff
        have hbind : AllowedHosts.allows ⟨port, some (.v4 .unspecified), listed extra⟩
            "0.0.0.0" none :=
          allows_iff.mpr ⟨.inr (.inl ⟨_, parse_anyAddress, .inr rfl⟩), fun _ h => nomatch h⟩
        rcases (allows_iff.mp (hiff.mp hbind)).1 with hlocal | ⟨ip, hip, hok⟩ | ⟨name, hmem, hsame⟩
        · exact absurd hlocal (by decide +kernel)
        · rw [parse_anyAddress] at hip
          cases hip
          rcases hok with hok | hok
          · exact absurd hok (by decide)
          · cases hok
        · exact hnames name hmem (parse_of_sameHost hsame)
    · rintro ⟨hoff, hany⟩
      refine ⟨fun request => ?_, fun h => ?_, hconfined⟩
      · rw [hc]
        exact accepts_mapped_iff hloop hunspec hc hoff fun h => hany ⟨congrArg _ h.1, h.2⟩
      · rw [allowedHosts_mapped hloop hunspec hc, if_pos]
        · rfl
        · rw [hc, isPrivateBind_mapped hc] at h
          rcases h with hl | hp | hlisted
          · exact .inr fun hlisted => hoff ⟨hl, hlisted⟩
          · exact .inl hp
          · exact .inr hlisted

end Check

/-! ### The mapped loopback address -/

/-- A stand-in that takes every text for a host. -/
@[reducible] def plainUri : HttpUri where
  authority s := some ⟨s, s, none⟩
  uri s := some (some ⟨s, s, none⟩)
  authority_name _ _ _ := rfl

/-- `::ffff:127.0.0.1` turns the check off. -/
theorem not_defended_mapped : letI := plainUri
    ¬ ∀ (bind : IpAddr) (port : UInt16) (extra : List String), Defended bind port extra := by
  let _ := plainUri
  intro h
  have hsome := (h (.v6 ⟨0, 0, 0, 0, 0, 0xffff, 0x7f00, 1⟩) 34872 []).enforced (.inl (by decide))
  exact absurd hsome (by decide)

end Roxo.Origin
