import Xpipe.ConfFile
import Xpipe.RequestLanguage

/-!
# The numeric directives

`listen`, `connections` and `request_buffer_size` look at the characters of their
argument only, and not at its length. The value goes through `atoi`, a conversion
to `uint_t` and, for the port, the 16 bits that `htons` takes.
`directives_mean_iff` says for which arguments the server uses the number that was
written.
-/
namespace Xpipe

/-- The fields of `tcp_server_t` that come from the configuration. -/
structure TcpServer where
  port : ℕ
  connections : ℕ
  requestBufSize : ℕ
  deriving DecidableEq, Repr

/-- What `init_network_mod` puts into them. -/
def NetConf.server (cf : NetConf) : TcpServer where
  port := cf.port
  connections := cf.conns
  requestBufSize := cf.requestBufferSize

/-- `htons`: the two bytes of its argument, which is a `uint16_t`, high one first. -/
def htons (port : ℕ) : UInt8 × UInt8 := (UInt8.ofNat (port / 256), UInt8.ofNat port)

/-- `sin_port`, as `tcp_server_listen` sets it. -/
def TcpServer.sinPort (server : TcpServer) : UInt8 × UInt8 := htons server.port

/-- The port that a `sin_port` names. -/
def portNumber (sinPort : UInt8 × UInt8) : ℕ := 256 * sinPort.1.toNat + sinPort.2.toNat

lemma portNumber_htons (port : ℕ) : portNumber (htons port) = port % 2 ^ 16 := by
  simp only [portNumber, htons, UInt8.toNat_ofNat']
  omega

lemma isPositiveInteger_digits {arg : List UInt8} (h : isPositiveInteger arg = true) :
    All isDigit arg := by
  cases arg with
  | nil => cases h
  | cons c cs =>
    simp only [isPositiveInteger, Bool.and_eq_true, List.all_eq_true] at h
    intro d hd
    rcases List.mem_cons.mp hd with rfl | hd
    · exact h.1.1
    · exact h.2 d hd

/-- A numeral keeps its value as a `uint_t` exactly when it fits into one: the sign
that `atoi` may give it is lost again. -/
lemma toUint_atoi_iff {arg : List UInt8} (h : All isDigit arg) :
    toUint (atoi arg) = decimal arg ↔ decimal arg < 2 ^ 32 := by
  rw [atoi, cString_self h, strtol_digits h]
  unfold toUint toInt32
  rw [Int.bmod_def]
  split_ifs <;> omega

/-- As a port it has to fit into 16 bits. -/
lemma portNumber_atoi_iff {arg : List UInt8} (h : All isDigit arg) :
    portNumber (htons (toUint (atoi arg))) = decimal arg ↔ decimal arg < 2 ^ 16 := by
  rw [portNumber_htons]
  constructor
  · intro heq
    rw [← heq]
    exact Nat.mod_lt _ (by norm_num)
  · intro hlt
    rw [(toUint_atoi_iff h).mpr (by omega), Nat.mod_eq_of_lt hlt]

/-- The number that a directive takes, and when it is refused. -/
lemma numberArg_pair (name arg : List UInt8) : numberArg [name, arg] =
    if isPositiveInteger arg = true then some (toUint (atoi arg)) else none := rfl

/-- What holds of the result of a numeric directive, for a property `P` of the number. -/
lemma numberArg_map {name arg : List UInt8} (put : ℕ → NetConf) (P : NetConf → Prop) :
    (∀ cf', (numberArg [name, arg]).map put = some cf' → P cf') ↔
      (isPositiveInteger arg = true → P (put (toUint (atoi arg)))) := by
  rw [numberArg_pair]
  by_cases h : isPositiveInteger arg = true
  · simp [h]
  · simp [h]

/-- **The numeric directives mean their number, exactly for the numbers that fit**:
16 bits for the port, 32 bits for the others. -/
theorem directives_mean_iff (name arg : List UInt8) (cf : NetConf) :
    ((∀ cf', cmdListenSet [name, arg] cf = some cf' →
        portNumber cf'.server.sinPort = decimal arg) ↔
      (isPositiveInteger arg = true → decimal arg < 2 ^ 16)) ∧
    ((∀ cf', cmdConnecionsSet [name, arg] cf = some cf' →
        cf'.server.connections = decimal arg) ↔
      (isPositiveInteger arg = true → decimal arg < 2 ^ 32)) ∧
    ((∀ cf', cmdRequestBufferSizeSet [name, arg] cf = some cf' →
        cf'.server.requestBufSize = decimal arg) ↔
      (isPositiveInteger arg = true → decimal arg < 2 ^ 32)) := by
  refine ⟨?_, ?_, ?_⟩
  · rw [cmdListenSet, numberArg_map _ (fun cf' => portNumber cf'.server.sinPort = decimal arg)]
    exact forall_congr' (fun h => portNumber_atoi_iff (isPositiveInteger_digits h))
  · rw [cmdConnecionsSet, numberArg_map _ (fun cf' => cf'.server.connections = decimal arg)]
    exact forall_congr' (fun h => toUint_atoi_iff (isPositiveInteger_digits h))
  · rw [cmdRequestBufferSizeSet,
      numberArg_map _ (fun cf' => cf'.server.requestBufSize = decimal arg)]
    exact forall_congr' (fun h => toUint_atoi_iff (isPositiveInteger_digits h))

/-- `65616`. -/
def highPort : List UInt8 := [54, 53, 54, 49, 54]

/-- `listen 65616;` is accepted, and the server listens on port 80. -/
theorem directives_mean_highPort :
    cmdListenSet [Command.listen.name, highPort] createNetModConf =
        some { createNetModConf with port := 65616 } ∧
      portNumber ({ createNetModConf with port := 65616 } : NetConf).server.sinPort = 80 ∧
      ¬ ∀ (name arg : List UInt8) (cf cf' : NetConf), cmdListenSet [name, arg] cf = some cf' →
        portNumber cf'.server.sinPort = decimal arg := by
  refine ⟨by decide, by decide, fun h => ?_⟩
  have hport := h Command.listen.name highPort createNetModConf
    { createNetModConf with port := 65616 } (by decide)
  revert hport
  decide

end Xpipe
