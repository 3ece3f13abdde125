import SentinelHub.Broker.Protocol

/-!
# Topic hashes

`topic_hash` in `broker/protocol.py` names a topic by the first four bytes of
the MD5 digest of its text.  The digest is the one that `hashlib.md5` computes,
on lists of bytes and 32-bit words.
-/

namespace SentinelHub.Broker

open SentinelHub.Support

/-- The additive constants, the integer parts of `2 ^ 32 * |sin (i + 1)|`. -/
def md5Table : List UInt32 :=
  [0xd76aa478, 0xe8c7b756, 0x242070db, 0xc1bdceee, 0xf57c0faf, 0x4787c62a,
    0xa8304613, 0xfd469501, 0x698098d8, 0x8b44f7af, 0xffff5bb1, 0x895cd7be,
    0x6b901122, 0xfd987193, 0xa679438e, 0x49b40821, 0xf61e2562, 0xc040b340,
    0x265e5a51, 0xe9b6c7aa, 0xd62f105d, 0x02441453, 0xd8a1e681, 0xe7d3fbc8,
    0x21e1cde6, 0xc33707d6, 0xf4d50d87, 0x455a14ed, 0xa9e3e905, 0xfcefa3f8,
    0x676f02d9, 0x8d2a4c8a, 0xfffa3942, 0x8771f681, 0x6d9d6122, 0xfde5380c,
    0xa4beea44, 0x4bdecfa9, 0xf6bb4b60, 0xbebfbc70, 0x289b7ec6, 0xeaa127fa,
    0xd4ef3085, 0x04881d05, 0xd9d4d039, 0xe6db99e5, 0x1fa27cf8, 0xc4ac5665,
    0xf4292244, 0x432aff97, 0xab9423a7, 0xfc93a039, 0x655b59c3, 0x8f0ccc92,
    0xffeff47d, 0x85845dd1, 0x6fa87e4f, 0xfe2ce6e0, 0xa3014314, 0x4e0811a1,
    0xf7537e82, 0xbd3af235, 0x2ad7d2bb, 0xeb86d391]

/-- The rotations of the four rounds, each used four times. -/
def md5Shifts : List (List UInt32) :=
  [[7, 12, 17, 22], [5, 9, 14, 20], [4, 11, 16, 23], [6, 10, 15, 21]]

structure Md5State where
  a : UInt32
  b : UInt32
  c : UInt32
  d : UInt32
  deriving DecidableEq, Repr

def Md5State.init : Md5State where
  a := 0x67452301
  b := 0xefcdab89
  c := 0x98badcfe
  d := 0x10325476

def rotateLeft (x shift : UInt32) : UInt32 :=
  (x <<< shift) ||| (x >>> (32 - shift))

/-- The function of round `i / 16`, and the word that step `i` adds. -/
def md5Mix (i : ℕ) (s : Md5State) : UInt32 × ℕ :=
  match i / 16 with
  | 0 => ((s.b &&& s.c) ||| (~~~s.b &&& s.d), i)
  | 1 => ((s.d &&& s.b) ||| (~~~s.d &&& s.c), (5 * i + 1) % 16)
  | 2 => (s.b ^^^ s.c ^^^ s.d, (3 * i + 5) % 16)
  | _ => (s.c ^^^ (s.b ||| ~~~s.d), (7 * i) % 16)

def md5Step (words : List UInt32) (s : Md5State) (i : ℕ) : Md5State :=
  let (f, g) := md5Mix i s
  let shift := (md5Shifts.getD (i / 16) []).getD (i % 4) 0
  let sum := s.a + f + md5Table.getD i 0 + words.getD g 0
  { a := s.d, b := s.b + rotateLeft sum shift, c := s.b, d := s.c }

/-- One block of 16 words. -/
def md5Block (s : Md5State) (words : List UInt32) : Md5State :=
  let t := (List.range 64).foldl (md5Step words) s
  { a := s.a + t.a, b := s.b + t.b, c := s.c + t.c, d := s.d + t.d }

/-- A byte `0x80`, zeros up to eight bytes before the end of a block, and the
length in bits, least significant byte first. -/
def md5Pad (data : Bytes) : Bytes :=
  data ++ 0x80 :: List.replicate ((119 - data.length % 64) % 64) 0 ++
    (bigEndian 8 (8 * data.length)).reverse

/-- Four bytes, least significant first, make a word. -/
def md5Words (data : Bytes) : List UInt32 :=
  (data.toChunks 4).map fun bytes => (ofBigEndian bytes.reverse).toUInt32

def md5 (data : Bytes) : Bytes :=
  let s := ((md5Words (md5Pad data)).toChunks 16).foldl md5Block .init
  [s.a, s.b, s.c, s.d].flatMap fun word => (bigEndian 4 word.toNat).reverse

/-- `topic.encode("utf-8")`. -/
def utf8Bytes (text : String) : Bytes :=
  text.toUTF8.data.toList

/-- `struct.unpack("!I", digest[:4])[0]`. -/
def topicHash (topic : String) : ℤ :=
  ofBigEndian ((md5 (utf8Bytes topic)).take 4)

example : topicHash "home/fire" = 0x4EEC8F19 := by decide +kernel

/-- Every topic hash fits the topic field of a header. -/
theorem topicHash_inRange (topic : String) :
    0 ≤ topicHash topic ∧ topicHash topic < 2 ^ 32 := by
  have hlt := ofBigEndian_lt ((md5 (utf8Bytes topic)).take 4)
  have hle := List.length_take_le 4 (md5 (utf8Bytes topic))
  have hpow : 256 ^ ((md5 (utf8Bytes topic)).take 4).length ≤ 256 ^ 4 :=
    Nat.pow_le_pow_right (by decide) hle
  rw [topicHash]
  omega

end SentinelHub.Broker
