import ReactorServer.Http.Delimited

/-!
# The address the server listens on

`Acceptor` asks the environment where to listen.  The number in `MYSERVER_PORT` goes through three
types on its way into the address: `strtol` makes a `long` of it, `envOrInt` casts that to an `int`,
and `InetAddress` takes a `uint16_t`.  `envOrInt` refuses what is not a positive number, but neither
cast is checked.

`Denotes` is what a string says, whatever its length.  `configured_exactly_iff` is the exact
condition: a setting is taken as it is written unless it denotes a number above `INT_MAX`, and the
port unless it denotes one above 65535.
-/

set_option autoImplicit false

namespace ReactorServer

/-! ## The environment -/

/-- A C string: bytes in front of a terminating NUL. -/
structure CString where
  bytes : Bytes
  noNul : 0 ∉ bytes

/-- The environment, as `std::getenv` shows it. -/
abbrev Environ := Bytes → Option CString

/-- `config::envOr`. -/
def envOr (env : Environ) (name defval : Bytes) : Bytes :=
  match env name with
  | none => defval
  | some v => if v.bytes = [] then defval else v.bytes

/-- `config::envOrInt`: what it returns, and what it writes to `stderr`. -/
def envOrInt (env : Environ) (name : Bytes) (defval : Int32) : Int32 × Bytes :=
  match env name with
  | none => (defval, [])
  | some v =>
    if v.bytes = [] then (defval, [])
    else
      let (n, rest) := strtol v.bytes
      if rest ≠ [] ∨ n ≤ 0 then
        (defval, lit "config: invalid " ++ name ++ lit "='" ++ v.bytes ++
          lit "', using default " ++ intDecimal defval.toInt ++ lit "\n")
      else (Int32.ofInt n, [])

/-- `config::serverHost`. -/
def serverHost (env : Environ) : Bytes := envOr env (lit "MYSERVER_HOST") (lit "127.0.0.1")

/-- `config::serverPort`. -/
def serverPort (env : Environ) : Int32 := (envOrInt env (lit "MYSERVER_PORT") 8888).1

/-! ## The address -/

/-- The conversion of an `int` to `uint16_t`. -/
def toUint16 (n : Int32) : UInt16 := UInt16.ofNat (n.toInt % 65536).toNat

/-- `htons`, and `ntohs`, on a little-endian machine: the two bytes change places. -/
def htons (port : UInt16) : UInt16 := UInt16.ofNat (port.toNat % 256 * 256 + port.toNat / 256)

theorem htons_htons (port : UInt16) : htons (htons port) = port := by
  have hlt := port.toNat_lt
  have hswap : (htons port).toNat = port.toNat % 256 * 256 + port.toNat / 256 :=
    Nat.mod_eq_of_lt (by omega)
  rw [← UInt16.toNat_inj, htons, UInt16.toNat_ofNat', hswap, Nat.mod_eq_of_lt (by omega)]
  omega

/-- The `sockaddr_in` in an `InetAddress`. -/
structure InetAddress where
  sinFamily : UInt16
  sinAddr : UInt32
  sinPort : UInt16

section Address

-- `inet_addr` of the C library
variable (inetAddr : Bytes → UInt32)

/-- The constructor of `InetAddress`. -/
def InetAddress.ofIp (ip : Bytes) (port : UInt16) : InetAddress where
  sinFamily := 2
  sinAddr := inetAddr ip
  sinPort := htons port

/-- The port an address stands for. -/
def InetAddress.port (addr : InetAddress) : UInt16 := htons addr.sinPort

/-- The address in the constructor of `Acceptor`. -/
def acceptorAddress (env : Environ) : InetAddress :=
  .ofIp inetAddr (cstr (serverHost env)) (toUint16 (serverPort env))

theorem port_acceptorAddress (env : Environ) :
    (acceptorAddress inetAddr env).port = toUint16 (serverPort env) := htons_htons _

end Address

/-! ## What a string denotes -/

/-- The string is a number in decimal, with white space and a sign in front if one likes. -/
def Denotes (s : Bytes) (n : ℤ) : Prop :=
  ∃ spaces sign digits, s = spaces ++ (sign ++ digits) ∧ (∀ b ∈ spaces, isspace b = true) ∧
    digits ≠ [] ∧ (∀ b ∈ digits, isdigit b = true) ∧
    ((sign = [] ∨ sign = [43]) ∧ n = digitsVal digits ∨ sign = [45] ∧ n = -digitsVal digits)

/-- The parts of a number are where `strtol` looks for them. -/
theorem Denotes.split {s : Bytes} {n : ℤ} (h : Denotes s n) : ∃ neg digits,
    splitSign (s.dropWhile isspace) = (neg, digits) ∧ digits ≠ [] ∧
      (∀ b ∈ digits, isdigit b = true) ∧ n = if neg then -(digitsVal digits : ℤ) else digitsVal digits := by
  obtain ⟨spaces, sign, digits, rfl, hspaces, hne, hdigits, hsign⟩ := h
  obtain ⟨d, ds, rfl⟩ := List.exists_cons_of_ne_nil hne
  have hd : isdigit d = true := hdigits d List.mem_cons_self
  rw [List.dropWhile_append_of_pos hspaces]
  rcases hsign with ⟨rfl | rfl, rfl⟩ | ⟨rfl, rfl⟩
  · refine ⟨false, d :: ds, ?_, hne, hdigits, rfl⟩
    rw [List.nil_append, List.dropWhile_cons_of_neg (by simp [isspace_of_isdigit hd]),
      splitSign_of_isdigit ds hd]
  · exact ⟨false, d :: ds, rfl, hne, hdigits, rfl⟩
  · exact ⟨true, d :: ds, rfl, hne, hdigits, rfl⟩

theorem Denotes.unique {s : Bytes} {m n : ℤ} (hm : Denotes s m) (hn : Denotes s n) : m = n := by
  obtain ⟨neg, digits, hsplit, -, -, rfl⟩ := hm.split
  obtain ⟨neg', digits', hsplit', -, -, rfl⟩ := hn.split
  obtain ⟨rfl, rfl⟩ := Prod.mk.inj (hsplit.symm.trans hsplit')
  rfl

/-- **`strtol` reads a number up to its end**, and clamps it. -/
theorem strtol_of_denotes {s : Bytes} {n : ℤ} (h : Denotes s n) :
    strtol s = (max longMin (min longMax n), []) := by
  obtain ⟨neg, digits, hsplit, hne, hdigits, rfl⟩ := h.split
  have htake : digits.takeWhile isdigit = digits := List.takeWhile_eq_self_iff.mpr hdigits
  have hdrop : digits.dropWhile isdigit = [] := List.dropWhile_eq_nil_iff.mpr hdigits
  rw [strtol, hsplit]
  dsimp only
  rw [htake, hdrop, if_neg hne]

/-- And a string that it reads up to its end is a number. -/
theorem denotes_of_strtol {s : Bytes} (hs : s ≠ []) (h : (strtol s).2 = []) : ∃ n, Denotes s n := by
  have hcut : s = s.takeWhile isspace ++ s.dropWhile isspace := List.takeWhile_append_dropWhile.symm
  have hspaces : ∀ b ∈ s.takeWhile isspace, isspace b = true := fun b hb ↦ List.mem_takeWhile_imp hb
  have hsign : ∃ sign, s.dropWhile isspace = sign ++ (splitSign (s.dropWhile isspace)).2 ∧
      (sign = [] ∨ sign = [43] ∨ sign = [45]) := by
    unfold splitSign
    split
    · exact ⟨[45], by assumption, by simp⟩
    · exact ⟨[43], by assumption, by simp⟩
    · exact ⟨[], rfl, by simp⟩
  obtain ⟨sign, hrest, hsign⟩ := hsign
  rw [strtol] at h
  generalize splitSign (s.dropWhile isspace) = p at h hrest
  obtain ⟨neg, u⟩ := p
  dsimp only at h hrest
  by_cases hds : u.takeWhile isdigit = []
  · rw [if_pos hds] at h
    exact absurd h hs
  · rw [if_neg hds] at h
    have hdigits : ∀ b ∈ u, isdigit b = true := List.dropWhile_eq_nil_iff.mp h
    have hne : u ≠ [] := fun hu ↦ hds (by rw [hu]; rfl)
    rw [hrest] at hcut
    rcases hsign with hsign | hsign | hsign
    · exact ⟨_, _, sign, u, hcut, hspaces, hne, hdigits, .inl ⟨.inl hsign, rfl⟩⟩
    · exact ⟨_, _, sign, u, hcut, hspaces, hne, hdigits, .inl ⟨.inr hsign, rfl⟩⟩
    · exact ⟨_, _, sign, u, hcut, hspaces, hne, hdigits, .inr ⟨hsign, rfl⟩⟩

theorem not_denotes_nil (n : ℤ) : ¬ Denotes [] n := by
  rintro ⟨spaces, sign, digits, h, -, hne, -⟩
  obtain ⟨-, h⟩ := List.append_eq_nil_iff.mp h.symm
  exact hne (List.append_eq_nil_iff.mp h).2

/-! ## What is taken -/

/-- **A setting is a positive number or the default.**  The number is cut to a `long` first, and then
to an `int`. -/
theorem envOrInt_cases (env : Environ) (name : Bytes) (defval : Int32) :
    (∃ v n, env name = some v ∧ Denotes v.bytes n ∧ 0 < n ∧
        (envOrInt env name defval).1 = Int32.ofInt (min longMax n)) ∨
      (∀ v n, env name = some v → Denotes v.bytes n → n ≤ 0) ∧
        (envOrInt env name defval).1 = defval := by
  unfold envOrInt
  cases hv : env name with
  | none => exact .inr ⟨by simp, rfl⟩
  | some v =>
    dsimp only
    by_cases hnil : v.bytes = []
    · rw [if_pos hnil]
      refine .inr ⟨?_, rfl⟩
      rintro _ n ⟨⟩ hn
      rw [hnil] at hn
      exact absurd hn (not_denotes_nil n)
    rw [if_neg hnil]
    by_cases hend : (strtol v.bytes).2 = []
    · obtain ⟨n, hn⟩ := denotes_of_strtol hnil hend
      rw [strtol_of_denotes hn]
      dsimp only
      by_cases hpos : 0 < n
      · have hclamp : max longMin (min longMax n) = min longMax n := by
          unfold longMin longMax
          omega
        have hle : ¬ min longMax n ≤ 0 := by
          unfold longMax
          omega
        rw [hclamp, if_neg (by simp [hle])]
        exact .inl ⟨v, n, rfl, hn, hpos, rfl⟩
      · have hle : max longMin (min longMax n) ≤ 0 := by
          unfold longMin longMax
          omega
        rw [if_pos (.inr hle)]
        refine .inr ⟨?_, rfl⟩
        rintro _ m ⟨⟩ hm
        rw [hm.unique hn]
        omega
    · rw [if_pos (.inl hend)]
      refine .inr ⟨?_, rfl⟩
      rintro _ n ⟨⟩ hn
      exact absurd (congrArg Prod.snd (strtol_of_denotes hn)) hend

/-- `INT_MAX`. -/
def intMax : ℤ := 2147483647

/-- Whatever the default, the setting is the default, or a positive `int` that is the number the
whole string denotes. -/
def TakenExactly (env : Environ) (name : Bytes) : Prop :=
  ∀ defval, (envOrInt env name defval).1 = defval ∨
    1 ≤ (envOrInt env name defval).1.toInt ∧ (envOrInt env name defval).1.toInt ≤ intMax ∧
      ∃ v, env name = some v ∧ Denotes v.bytes (envOrInt env name defval).1.toInt

/-- If the port is not the default, the address has the number that was written. -/
def PortTaken (inetAddr : Bytes → UInt32) (env : Environ) : Prop :=
  serverPort env ≠ 8888 → ∃ v, env (lit "MYSERVER_PORT") = some v ∧
    Denotes v.bytes (acceptorAddress inetAddr env).port.toNat

/-- No number above the bound is written in the variable. -/
def AtMostNumber (bound : ℤ) (env : Environ) (name : Bytes) : Prop :=
  ∀ v n, env name = some v → Denotes v.bytes n → n ≤ bound

theorem toInt_ofInt_of_le_intMax {n : ℤ} (hpos : 0 < n) (hle : n ≤ intMax) :
    (Int32.ofInt (min longMax n)).toInt = n := by
  unfold intMax at hle
  have hmin : min longMax n = n := by
    unfold longMax
    omega
  rw [hmin]
  exact Int32.toInt_ofInt_of_le (by omega) (by omega)

theorem takenExactly_iff (env : Environ) (name : Bytes) :
    TakenExactly env name ↔ AtMostNumber intMax env name := by
  constructor
  · intro h v n hv hn
    by_contra hbig
    -- a default that the result is not
    obtain ⟨defval, hdefval⟩ : ∃ defval : Int32, Int32.ofInt (min longMax n) ≠ defval := by
      by_cases hone : Int32.ofInt (min longMax n) = 1
      · exact ⟨2, by rw [hone]; decide⟩
      · exact ⟨1, hone⟩
    have hvalue : (envOrInt env name defval).1 = Int32.ofInt (min longMax n) := by
      rcases envOrInt_cases env name defval with ⟨v', m, hv', hm, -, he⟩ | ⟨hnone, -⟩
      · obtain rfl := Option.some.inj (hv.symm.trans hv')
        rw [he, hm.unique hn]
      · have := hnone v n hv hn
        unfold intMax at hbig
        omega
    rcases h defval with he | ⟨-, hmax, v', hv', hm⟩
    · exact hdefval (hvalue.symm.trans he)
    · obtain rfl := Option.some.inj (hv.symm.trans hv')
      rw [hm.unique hn] at hmax
      exact hbig hmax
  · intro h defval
    rcases envOrInt_cases env name defval with ⟨v, n, hv, hn, hpos, he⟩ | ⟨-, he⟩
    · have hint := toInt_ofInt_of_le_intMax hpos (h v n hv hn)
      rw [he, hint]
      exact .inr ⟨by omega, h v n hv hn, v, hv, hn⟩
    · exact .inl he

theorem toNat_toUint16 (n : Int32) : ((toUint16 n).toNat : ℤ) = n.toInt % 65536 := by
  rw [toUint16, UInt16.toNat_ofNat']
  omega

theorem portTaken_iff (inetAddr : Bytes → UInt32) {env : Environ}
    (h : AtMostNumber intMax env (lit "MYSERVER_PORT")) :
    PortTaken inetAddr env ↔ AtMostNumber 65535 env (lit "MYSERVER_PORT") := by
  rw [PortTaken, port_acceptorAddress]
  rcases envOrInt_cases env (lit "MYSERVER_PORT") 8888 with ⟨v, n, hv, hn, hpos, he⟩ | ⟨hnone, he⟩
  · have hint : (serverPort env).toInt = n := by
      rw [serverPort, he]
      exact toInt_ofInt_of_le_intMax hpos (h v n hv hn)
    have hport : ((toUint16 (serverPort env)).toNat : ℤ) = n % 65536 := by rw [toNat_toUint16, hint]
    constructor
    · rintro htaken v' m hv' hm
      obtain rfl := Option.some.inj (hv.symm.trans hv')
      obtain rfl := hm.unique hn
      by_cases hdefault : serverPort env = 8888
      · rw [← hint, hdefault]
        decide
      · obtain ⟨v', hv', hd⟩ := htaken hdefault
        obtain rfl := Option.some.inj (hv.symm.trans hv')
        have hmod := hd.unique hn
        omega
    · intro hle _
      refine ⟨v, hv, ?_⟩
      have hsmall := hle v n hv hn
      rw [hport, Int.emod_eq_of_lt (by omega) (by omega)]
      exact hn
  · constructor
    · intro _ v n hv hn
      have := hnone v n hv hn
      omega
    · intro _ hne
      exact absurd he hne

/-- **Settings are taken exactly or refused** if and only if they do not denote a number that is too
large: for an `int`, and for a port. -/
theorem configured_exactly_iff (inetAddr : Bytes → UInt32) (env : Environ) :
    (∀ name, TakenExactly env name ↔ AtMostNumber intMax env name) ∧
      (TakenExactly env (lit "MYSERVER_PORT") ∧ PortTaken inetAddr env ↔
        AtMostNumber 65535 env (lit "MYSERVER_PORT")) := by
  refine ⟨takenExactly_iff env, ?_⟩
  rw [takenExactly_iff]
  constructor
  · rintro ⟨hint, hport⟩
    exact (portTaken_iff inetAddr hint).mp hport
  · intro hport
    have hint : AtMostNumber intMax env (lit "MYSERVER_PORT") := by
      intro v n hv hn
      have := hport v n hv hn
      unfold intMax
      omega
    exact ⟨hint, (portTaken_iff inetAddr hint).mpr hport⟩

/-- An environment with one variable in it. -/
def portEnviron (digits : Bytes) (h : 0 ∉ digits) : Environ := fun name ↦
  if name = lit "MYSERVER_PORT" then some ⟨digits, h⟩ else none

/-- `MYSERVER_PORT=4294967296` makes the server bind to port zero, which is a random one, and
`MYSERVER_PORT=70000` makes it listen on 4464. -/
theorem port_wraps :
    serverPort (portEnviron (lit "4294967296") (by decide)) = 0 ∧
      (¬ TakenExactly (portEnviron (lit "4294967296") (by decide)) (lit "MYSERVER_PORT")) ∧
      (acceptorAddress (fun _ ↦ 0) (portEnviron (lit "70000") (by decide))).port = 4464 ∧
      ¬ PortTaken (fun _ ↦ 0) (portEnviron (lit "70000") (by decide)) := by
  have hbig : Denotes (lit "4294967296") 4294967296 :=
    ⟨[], [], lit "4294967296", rfl, by simp, by decide, by decide +kernel, .inl ⟨.inl rfl, by decide⟩⟩
  have hport : Denotes (lit "70000") 70000 :=
    ⟨[], [], lit "70000", rfl, by simp, by decide, by decide +kernel, .inl ⟨.inl rfl, by decide⟩⟩
  refine ⟨by decide, ?_, by decide, ?_⟩
  · rw [takenExactly_iff]
    intro h
    exact absurd (h _ _ (if_pos rfl) hbig) (by decide)
  · intro h
    obtain ⟨v, hv, hd⟩ := h (by decide)
    obtain rfl := Option.some.inj hv
    exact absurd (hd.unique hport) (by decide)

end ReactorServer
