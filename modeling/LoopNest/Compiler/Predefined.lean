import LoopNest.Compiler.Token
import Std.Data.HashMap

/-!
# Names that the compiler defines

The names that stand for something before the first line of a source is read: the sizes and limits
of the types, and what is known of the machine.
-/

namespace LoopNest.Compiler

/-- What a defined name stands for. A definition with parameters is used only in front of
arguments; the last parameter may take all further arguments. -/
structure Definition where
  params : Option (List String) := none
  isVariadic : Bool := false
  body : List Lexeme := []
deriving Inhabited

namespace Predefined

/-- The definitions, each a name, perhaps a parameter, and a text. -/
def lines : List String :=
  ["_LP64 1", "__ATOMIC_ACQUIRE 2", "__ATOMIC_ACQ_REL 4", "__ATOMIC_CONSUME 1",
    "__ATOMIC_HLE_ACQUIRE 65536", "__ATOMIC_HLE_RELEASE 131072", "__ATOMIC_RELAXED 0",
    "__ATOMIC_RELEASE 3", "__ATOMIC_SEQ_CST 5", "__BIGGEST_ALIGNMENT__ 16",
    "__BYTE_ORDER__ __ORDER_LITTLE_ENDIAN__", "__CHAR16_TYPE__ short unsigned int",
    "__CHAR32_TYPE__ unsigned int", "__CHAR_BIT__ 8", "__DBL_DECIMAL_DIG__ 17",
    "__DBL_DENORM_MIN__ ((double)4.94065645841246544176568792868221372e-324L)", "__DBL_DIG__ 15",
    "__DBL_EPSILON__ ((double)2.22044604925031308084726333618164062e-16L)", "__DBL_HAS_DENORM__ 1",
    "__DBL_HAS_INFINITY__ 1", "__DBL_HAS_QUIET_NAN__ 1", "__DBL_IS_IEC_60559__ 1",
    "__DBL_MANT_DIG__ 53", "__DBL_MAX_10_EXP__ 308", "__DBL_MAX_EXP__ 1024",
    "__DBL_MAX__ ((double)1.79769313486231570814527423731704357e+308L)",
    "__DBL_MIN_10_EXP__ (-307)", "__DBL_MIN_EXP__ (-1021)",
    "__DBL_MIN__ ((double)2.22507385850720138309023271733240406e-308L)",
    "__DBL_NORM_MAX__ ((double)1.79769313486231570814527423731704357e+308L)", "__DECIMAL_DIG__ 21",
    "__ELF__ 1", "__FINITE_MATH_ONLY__ 0", "__FLOAT_WORD_ORDER__ __ORDER_LITTLE_ENDIAN__",
    "__FLT_DECIMAL_DIG__ 9", "__FLT_DENORM_MIN__ 1.40129846432481707092372958328991613e-45F",
    "__FLT_DIG__ 6", "__FLT_EPSILON__ 1.19209289550781250000000000000000000e-7F",
    "__FLT_EVAL_METHOD_TS_18661_3__ 0", "__FLT_EVAL_METHOD__ 0", "__FLT_HAS_DENORM__ 1",
    "__FLT_HAS_INFINITY__ 1", "__FLT_HAS_QUIET_NAN__ 1", "__FLT_IS_IEC_60559__ 1",
    "__FLT_MANT_DIG__ 24", "__FLT_MAX_10_EXP__ 38", "__FLT_MAX_EXP__ 128",
    "__FLT_MAX__ 3.40282346638528859811704183484516925e+38F", "__FLT_MIN_10_EXP__ (-37)",
    "__FLT_MIN_EXP__ (-125)", "__FLT_MIN__ 1.17549435082228750796873653722224568e-38F",
    "__FLT_NORM_MAX__ 3.40282346638528859811704183484516925e+38F", "__FLT_RADIX__ 2", "__FXSR__ 1",
    "__GCC_ASM_FLAG_OUTPUTS__ 1", "__GCC_ATOMIC_BOOL_LOCK_FREE 2",
    "__GCC_ATOMIC_CHAR16_T_LOCK_FREE 2", "__GCC_ATOMIC_CHAR32_T_LOCK_FREE 2",
    "__GCC_ATOMIC_CHAR_LOCK_FREE 2", "__GCC_ATOMIC_INT_LOCK_FREE 2",
    "__GCC_ATOMIC_LLONG_LOCK_FREE 2", "__GCC_ATOMIC_LONG_LOCK_FREE 2",
    "__GCC_ATOMIC_POINTER_LOCK_FREE 2", "__GCC_ATOMIC_SHORT_LOCK_FREE 2",
    "__GCC_ATOMIC_TEST_AND_SET_TRUEVAL 1", "__GCC_ATOMIC_WCHAR_T_LOCK_FREE 2",
    "__GCC_HAVE_DWARF2_CFI_ASM 1", "__GCC_HAVE_SYNC_COMPARE_AND_SWAP_1 1",
    "__GCC_HAVE_SYNC_COMPARE_AND_SWAP_2 1", "__GCC_HAVE_SYNC_COMPARE_AND_SWAP_4 1",
    "__GCC_HAVE_SYNC_COMPARE_AND_SWAP_8 1", "__GCC_IEC_559 2", "__GCC_IEC_559_COMPLEX 2",
    "__GNUC_EXECUTION_CHARSET_NAME \"UTF-8\"", "__GNUC_MINOR__ 2", "__GNUC_PATCHLEVEL__ 0",
    "__GNUC_STDC_INLINE__ 1", "__GNUC_WIDE_EXECUTION_CHARSET_NAME \"UTF-32LE\"", "__GNUC__ 12",
    "__GXX_ABI_VERSION 1017", "__HAVE_SPECULATION_SAFE_VALUE 1", "__INT16_C(c) c",
    "__INT16_MAX__ 0x7fff", "__INT16_TYPE__ short int", "__INT32_C(c) c",
    "__INT32_MAX__ 0x7fffffff", "__INT32_TYPE__ int", "__INT64_C(c) c ## L",
    "__INT64_MAX__ 0x7fffffffffffffffL", "__INT64_TYPE__ long int", "__INT8_C(c) c",
    "__INT8_MAX__ 0x7f", "__INT8_TYPE__ signed char", "__INTMAX_C(c) c ## L",
    "__INTMAX_MAX__ 0x7fffffffffffffffL", "__INTMAX_TYPE__ long int", "__INTMAX_WIDTH__ 64",
    "__INTPTR_MAX__ 0x7fffffffffffffffL", "__INTPTR_TYPE__ long int", "__INTPTR_WIDTH__ 64",
    "__INT_FAST16_MAX__ 0x7fffffffffffffffL", "__INT_FAST16_TYPE__ long int",
    "__INT_FAST16_WIDTH__ 64", "__INT_FAST32_MAX__ 0x7fffffffffffffffL",
    "__INT_FAST32_TYPE__ long int", "__INT_FAST32_WIDTH__ 64",
    "__INT_FAST64_MAX__ 0x7fffffffffffffffL", "__INT_FAST64_TYPE__ long int",
    "__INT_FAST64_WIDTH__ 64", "__INT_FAST8_MAX__ 0x7f", "__INT_FAST8_TYPE__ signed char",
    "__INT_FAST8_WIDTH__ 8", "__INT_LEAST16_MAX__ 0x7fff", "__INT_LEAST16_TYPE__ short int",
    "__INT_LEAST16_WIDTH__ 16", "__INT_LEAST32_MAX__ 0x7fffffff", "__INT_LEAST32_TYPE__ int",
    "__INT_LEAST32_WIDTH__ 32", "__INT_LEAST64_MAX__ 0x7fffffffffffffffL",
    "__INT_LEAST64_TYPE__ long int", "__INT_LEAST64_WIDTH__ 64", "__INT_LEAST8_MAX__ 0x7f",
    "__INT_LEAST8_TYPE__ signed char", "__INT_LEAST8_WIDTH__ 8", "__INT_MAX__ 0x7fffffff",
    "__INT_WIDTH__ 32", "__LDBL_DECIMAL_DIG__ 21",
    "__LDBL_DENORM_MIN__ 3.64519953188247460252840593361941982e-4951L", "__LDBL_DIG__ 18",
    "__LDBL_EPSILON__ 1.08420217248550443400745280086994171e-19L", "__LDBL_HAS_DENORM__ 1",
    "__LDBL_HAS_INFINITY__ 1", "__LDBL_HAS_QUIET_NAN__ 1", "__LDBL_IS_IEC_60559__ 1",
    "__LDBL_MANT_DIG__ 64", "__LDBL_MAX_10_EXP__ 4932", "__LDBL_MAX_EXP__ 16384",
    "__LDBL_MAX__ 1.18973149535723176502126385303097021e+4932L", "__LDBL_MIN_10_EXP__ (-4931)",
    "__LDBL_MIN_EXP__ (-16381)", "__LDBL_MIN__ 3.36210314311209350626267781732175260e-4932L",
    "__LDBL_NORM_MAX__ 1.18973149535723176502126385303097021e+4932L",
    "__LONG_LONG_MAX__ 0x7fffffffffffffffLL", "__LONG_LONG_WIDTH__ 64",
    "__LONG_MAX__ 0x7fffffffffffffffL", "__LONG_WIDTH__ 64", "__LP64__ 1", "__MMX_WITH_SSE__ 1",
    "__MMX__ 1", "__OPTIMIZE__ 1", "__ORDER_BIG_ENDIAN__ 4321", "__ORDER_LITTLE_ENDIAN__ 1234",
    "__ORDER_PDP_ENDIAN__ 3412", "__PIC__ 2", "__PRAGMA_REDEFINE_EXTNAME 1",
    "__PTRDIFF_MAX__ 0x7fffffffffffffffL", "__PTRDIFF_TYPE__ long int", "__PTRDIFF_WIDTH__ 64",
    "__REGISTER_PREFIX__", "__SCHAR_MAX__ 0x7f", "__SCHAR_WIDTH__ 8", "__SEG_FS 1", "__SEG_GS 1",
    "__SHRT_MAX__ 0x7fff", "__SHRT_WIDTH__ 16", "__SIG_ATOMIC_MAX__ 0x7fffffff",
    "__SIG_ATOMIC_MIN__ (-__SIG_ATOMIC_MAX__ - 1)", "__SIG_ATOMIC_TYPE__ int",
    "__SIG_ATOMIC_WIDTH__ 32", "__SIZEOF_DOUBLE__ 8", "__SIZEOF_FLOAT128__ 16",
    "__SIZEOF_FLOAT80__ 16", "__SIZEOF_FLOAT__ 4", "__SIZEOF_INT128__ 16", "__SIZEOF_INT__ 4",
    "__SIZEOF_LONG_DOUBLE__ 16", "__SIZEOF_LONG_LONG__ 8", "__SIZEOF_LONG__ 8",
    "__SIZEOF_POINTER__ 8", "__SIZEOF_PTRDIFF_T__ 8", "__SIZEOF_SHORT__ 2", "__SIZEOF_SIZE_T__ 8",
    "__SIZEOF_WCHAR_T__ 4", "__SIZEOF_WINT_T__ 4", "__SIZE_MAX__ 0xffffffffffffffffUL",
    "__SIZE_TYPE__ long unsigned int", "__SIZE_WIDTH__ 64", "__SSE2_MATH__ 1", "__SSE2__ 1",
    "__SSE_MATH__ 1", "__SSE__ 1", "__STDC_HOSTED__ 1", "__STDC_IEC_559_COMPLEX__ 1",
    "__STDC_IEC_559__ 1", "__STDC_IEC_60559_BFP__ 201404L", "__STDC_IEC_60559_COMPLEX__ 201404L",
    "__STDC_ISO_10646__ 201706L", "__STDC__ 1", "__UINT16_C(c) c", "__UINT16_MAX__ 0xffff",
    "__UINT16_TYPE__ short unsigned int", "__UINT32_C(c) c ## U", "__UINT32_MAX__ 0xffffffffU",
    "__UINT32_TYPE__ unsigned int", "__UINT64_C(c) c ## UL", "__UINT64_MAX__ 0xffffffffffffffffUL",
    "__UINT64_TYPE__ long unsigned int", "__UINT8_C(c) c", "__UINT8_MAX__ 0xff",
    "__UINT8_TYPE__ unsigned char", "__UINTMAX_C(c) c ## UL",
    "__UINTMAX_MAX__ 0xffffffffffffffffUL", "__UINTMAX_TYPE__ long unsigned int",
    "__UINTPTR_MAX__ 0xffffffffffffffffUL", "__UINTPTR_TYPE__ long unsigned int",
    "__UINT_FAST16_MAX__ 0xffffffffffffffffUL", "__UINT_FAST16_TYPE__ long unsigned int",
    "__UINT_FAST32_MAX__ 0xffffffffffffffffUL", "__UINT_FAST32_TYPE__ long unsigned int",
    "__UINT_FAST64_MAX__ 0xffffffffffffffffUL", "__UINT_FAST64_TYPE__ long unsigned int",
    "__UINT_FAST8_MAX__ 0xff", "__UINT_FAST8_TYPE__ unsigned char", "__UINT_LEAST16_MAX__ 0xffff",
    "__UINT_LEAST16_TYPE__ short unsigned int", "__UINT_LEAST32_MAX__ 0xffffffffU",
    "__UINT_LEAST32_TYPE__ unsigned int", "__UINT_LEAST64_MAX__ 0xffffffffffffffffUL",
    "__UINT_LEAST64_TYPE__ long unsigned int", "__UINT_LEAST8_MAX__ 0xff",
    "__UINT_LEAST8_TYPE__ unsigned char", "__USER_LABEL_PREFIX__", "__VERSION__ \"12.2.0\"",
    "__WCHAR_MAX__ 0x7fffffff", "__WCHAR_MIN__ (-__WCHAR_MAX__ - 1)", "__WCHAR_TYPE__ int",
    "__WCHAR_WIDTH__ 32", "__WINT_MAX__ 0xffffffffU", "__WINT_MIN__ 0U",
    "__WINT_TYPE__ unsigned int", "__WINT_WIDTH__ 32", "__amd64 1", "__amd64__ 1",
    "__code_model_small__ 1", "__gnu_linux__ 1", "__k8 1", "__k8__ 1", "__linux 1", "__linux__ 1",
    "__pic__ 2", "__unix 1", "__unix__ 1", "__x86_64 1", "__x86_64__ 1"]

def parse (line : String) : String × Definition :=
  let cs := line.toList
  let key := cs.takeWhile Token.isNameChar
  let rest := cs.drop key.length
  match rest with
  | '(' :: c :: ')' :: body =>
    (String.ofList key, { params := some [c.toString], body := Token.ofLine ["L"] 0 body })
  | body => (String.ofList key, { body := Token.ofLine ["L"] 0 body })

def table : Std.HashMap String Definition := Std.HashMap.ofList (lines.map parse)

end Predefined

end LoopNest.Compiler
