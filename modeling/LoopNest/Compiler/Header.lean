import Std.Data.HashMap

/-!
# Headers of the C library

The lines of the headers of the library: what they define and declare, as far as sources of kernels
have a use for it. A header may be made of others.
-/

namespace LoopNest.Compiler

/-- A header: the headers whose lines come first, and its own lines. -/
structure Header where
  name : String
  includes : List String := []
  lines : List String := []
deriving Repr, Inhabited

namespace Header

/-- The lines that define names. -/
def defining (texts : List String) : List String := texts.map ("#define " ++ ·)

/-- The lines that declare functions. -/
def declaring (texts : List String) : List String := texts.map fun s => "extern " ++ s ++ ";"

/-- The types of the functions of the mathematics header, with the letter at the end of the name. -/
def mathTypes : List (String × String) := [("double", ""), ("float", "f"), ("long double", "l")]

/-- The functions of one fraction that give a fraction. -/
def mathUnary : List String :=
  ["acos", "asin", "atan", "cos", "sin", "tan", "cosh", "sinh", "tanh", "acosh", "asinh", "atanh",
    "exp", "log", "log10", "expm1", "log1p", "logb", "exp2", "log2", "sqrt", "cbrt", "ceil", "fabs",
    "floor", "erf", "erfc", "lgamma", "tgamma", "rint", "nearbyint", "round", "trunc"]

/-- The functions of two fractions that give a fraction. -/
def mathBinary : List String :=
  ["atan2", "pow", "hypot", "fmod", "copysign", "nextafter", "remainder", "fdim", "fmax", "fmin"]

/-- The other functions of the mathematics header, each by its name, what it gives and what it
takes, where a letter stands for the type of fractions. -/
def mathOthers : List (String × String × String) :=
  [("frexp", "T", "(T, int *)"), ("ldexp", "T", "(T, int)"), ("modf", "T", "(T, T *)"),
    ("nan", "T", "(const char *)"), ("scalbn", "T", "(T, int)"), ("scalbln", "T", "(T, long int)"),
    ("ilogb", "int", "(T)"), ("remquo", "T", "(T, T, int *)"), ("lrint", "long int", "(T)"),
    ("llrint", "long long int", "(T)"), ("lround", "long int", "(T)"),
    ("llround", "long long int", "(T)"), ("fma", "T", "(T, T, T)"),
    ("nexttoward", "T", "(T, long double)")]

/-- The declarations of the mathematics header. -/
def mathDeclarations : List String :=
  mathTypes.flatMap fun (t, suffix) =>
    let typed (s : String) : String := t.intercalate (s.splitOn "T")
    mathUnary.map (fun f => t ++ " " ++ f ++ suffix ++ " (" ++ t ++ ")")
      ++ mathBinary.map (fun f => t ++ " " ++ f ++ suffix ++ " (" ++ t ++ ", " ++ t ++ ")")
      ++ mathOthers.map fun (f, gives, takes) => typed gives ++ " " ++ f ++ suffix ++ " " ++ typed takes

/-- What the headers define for themselves. -/
def ownDefinitions : List String :=
  defining
    ["_FEATURES_H 1", "_SYS_CDEFS_H 1",
      "__ASMNAME(cname) __ASMNAME2 (__USER_LABEL_PREFIX__, cname)",
      "__ASMNAME2(prefix,cname) __STRING (prefix) cname", "__BEGIN_DECLS",
      "__COLD __attribute__ ((__cold__))", "__CONCAT(x,y) x ## y", "__END_DECLS",
      "__GLIBC_MINOR__ 36",
      "__GLIBC_PREREQ(maj,min) ((__GLIBC__ << 16) + __GLIBC_MINOR__ >= ((maj) << 16) + (min))",
      "__GLIBC_USE(F) __GLIBC_USE_ ## F", "__GLIBC_USE_DEPRECATED_GETS 1",
      "__GLIBC_USE_DEPRECATED_SCANF 0", "__GLIBC_USE_ISOC2X 0", "__GLIBC__ 2",
      "__GNUC_PREREQ(maj,min) ((__GNUC__ << 16) + __GNUC_MINOR__ >= ((maj) << 16) + (min))",
      "__GNU_LIBRARY__ 6", "__HAVE_GENERIC_SELECTION 1", "__KERNEL_STRICT_NAMES",
      "__LDBL_REDIR(name,proto) name proto", "__LDBL_REDIR1(name,proto,alias) name proto",
      "__LDBL_REDIR1_NTH(name,proto,alias) name proto __THROW", "__LDBL_REDIR2_DECL(name)",
      "__LDBL_REDIR_DECL(name)", "__LDBL_REDIR_NTH(name,proto) name proto __THROW",
      "__LDOUBLE_REDIRECTS_TO_FLOAT128_ABI 0", "__LEAF , __leaf__",
      "__LEAF_ATTR __attribute__ ((__leaf__))",
      "__NTH(fct) __attribute__ ((__nothrow__ __LEAF)) fct",
      "__NTHNL(fct) __attribute__ ((__nothrow__)) fct", "__P(args) args", "__PMT(args) args",
      "__REDIRECT(name,proto,alias) name proto __asm__ (__ASMNAME (#alias))",
      "__REDIRECT_FORTIFY_NTH __REDIRECT_NTH",
      "__REDIRECT_LDBL(name,proto,alias) __REDIRECT (name, proto, alias)",
      "__REDIRECT_NTH(name,proto,alias) name proto __asm__ (__ASMNAME (#alias)) __THROW",
      "__REDIRECT_NTHNL(name,proto,alias) name proto __asm__ (__ASMNAME (#alias)) __THROWNL",
      "__REDIRECT_NTH_LDBL(name,proto,alias) __REDIRECT_NTH (name, proto, alias)", "__STRING(x) #x",
      "__SYSCALL_WORDSIZE 64", "__THROW __attribute__ ((__nothrow__ __LEAF))",
      "__THROWNL __attribute__ ((__nothrow__))", "__TIMESIZE __WORDSIZE", "__USE_EXTERN_INLINES 1",
      "__USE_FORTIFY_LEVEL 0", "__USE_ISOC95 1", "__USE_ISOC99 1", "__WORDSIZE 64",
      "__WORDSIZE_TIME64_COMPAT32 1",
      "__always_inline __inline __attribute__ ((__always_inline__))",
      "__attr_access(x) __attribute__ ((__access__ x))",
      "__attr_access_none(argno) __attribute__ ((__access__ (__none__, argno)))",
      "__attr_dealloc(dealloc,argno) __attribute__ ((__malloc__ (dealloc, argno)))",
      "__attr_dealloc_free __attr_dealloc (__builtin_free, 1)",
      "__attribute_alloc_align__(param) __attribute__ ((__alloc_align__ param))",
      "__attribute_alloc_size__(params) __attribute__ ((__alloc_size__ params))",
      "__attribute_artificial__ __attribute__ ((__artificial__))",
      "__attribute_const__ __attribute__ ((__const__))",
      "__attribute_copy__(arg) __attribute__ ((__copy__ (arg)))",
      "__attribute_deprecated__ __attribute__ ((__deprecated__))",
      "__attribute_deprecated_msg__(msg) __attribute__ ((__deprecated__ (msg)))",
      "__attribute_format_arg__(x) __attribute__ ((__format_arg__ (x)))",
      "__attribute_format_strfmon__(a,b) __attribute__ ((__format__ (__strfmon__, a, b)))",
      "__attribute_malloc__ __attribute__ ((__malloc__))",
      "__attribute_maybe_unused__ __attribute__ ((__unused__))",
      "__attribute_noinline__ __attribute__ ((__noinline__))",
      "__attribute_nonnull__(params) __attribute__ ((__nonnull__ params))",
      "__attribute_nonstring__ __attribute__ ((__nonstring__))",
      "__attribute_pure__ __attribute__ ((__pure__))",
      "__attribute_returns_twice__ __attribute__ ((__returns_twice__))",
      "__attribute_used__ __attribute__ ((__used__))",
      "__attribute_warn_unused_result__ __attribute__ ((__warn_unused_result__))",
      "__bos(ptr) __builtin_object_size (ptr, __USE_FORTIFY_LEVEL > 1)",
      "__bos0(ptr) __builtin_object_size (ptr, 0)",
      "__errordecl(name,msg) extern void name (void) __attribute__((__error__ (msg)))",
      "__extern_always_inline extern __always_inline __attribute__ ((__gnu_inline__))",
      "__extern_inline extern __inline __attribute__ ((__gnu_inline__))", "__flexarr []",
      "__fortified_attr_access(a,o,s) __attr_access ((a, o, s))", "__glibc_c99_flexarr_available 1",
      "__glibc_clang_prereq(maj,min) 0", "__glibc_has_attribute(attr) __has_attribute (attr)",
      "__glibc_has_builtin(name) __has_builtin (name)", "__glibc_has_extension(ext) 0",
      "__glibc_likely(cond) __builtin_expect ((cond), 1)",
      "__glibc_macro_warning(message) __glibc_macro_warning1 (GCC warning message)",
      "__glibc_macro_warning1(message) _Pragma (#message)", "__glibc_objsize(__o) __bos (__o)",
      "__glibc_objsize0(__o) __bos0 (__o)", "__glibc_unlikely(cond) __builtin_expect ((cond), 0)",
      "__nonnull(params) __attribute_nonnull__ (params)", "__ptr_t void *",
      "__restrict_arr __restrict", "__returns_nonnull __attribute__ ((__returns_nonnull__))",
      "__stub___compat_bdflush", "__stub_chflags", "__stub_fchflags", "__stub_gtty",
      "__stub_revoke", "__stub_setlogin", "__stub_sigreturn", "__stub_stty",
      "__va_arg_pack() __builtin_va_arg_pack ()",
      "__va_arg_pack_len() __builtin_va_arg_pack_len ()",
      "__warnattr(msg) __attribute__((__warning__ (msg)))", "__wur"]

/-- What the standard header defines for itself. -/
def ownStandardDefinitions : List String :=
  defining
    ["_BITS_FLOATN_COMMON_H", "_BITS_FLOATN_H", "_BSD_SIZE_T_", "_BSD_SIZE_T_DEFINED_",
      "_GCC_SIZE_T", "_GCC_WCHAR_T", "_SIZET_", "_SIZE_T", "_SIZE_T_", "_SIZE_T_DECLARED",
      "_SIZE_T_DEFINED", "_SIZE_T_DEFINED_", "_STDLIB_H 1", "_SYS_SIZE_T_H", "_T_SIZE", "_T_SIZE_",
      "_T_WCHAR", "_T_WCHAR_", "_WCHAR_T", "_WCHAR_T_", "_WCHAR_T_DECLARED", "_WCHAR_T_DEFINED",
      "_WCHAR_T_DEFINED_", "_WCHAR_T_H", "__CFLOAT128 _Complex _Float128",
      "__CFLOAT32 _Complex _Float32", "__CFLOAT32X _Complex _Float32x",
      "__CFLOAT64 _Complex _Float64", "__CFLOAT64X _Complex _Float64x", "__COMPAR_FN_T",
      "__DEFINED_size_t", "__DEFINED_wchar_t", "__GLIBC_USE_IEC_60559_BFP_EXT 0",
      "__GLIBC_USE_IEC_60559_BFP_EXT_C2X 0", "__GLIBC_USE_IEC_60559_EXT 0",
      "__GLIBC_USE_IEC_60559_FUNCS_EXT 0", "__GLIBC_USE_IEC_60559_FUNCS_EXT_C2X 0",
      "__GLIBC_USE_IEC_60559_TYPES_EXT 0", "__GLIBC_USE_LIB_EXT2 0", "__HAVE_DISTINCT_FLOAT128 1",
      "__HAVE_DISTINCT_FLOAT128X __HAVE_FLOAT128X", "__HAVE_DISTINCT_FLOAT16 __HAVE_FLOAT16",
      "__HAVE_DISTINCT_FLOAT32 0", "__HAVE_DISTINCT_FLOAT32X 0", "__HAVE_DISTINCT_FLOAT64 0",
      "__HAVE_DISTINCT_FLOAT64X 0", "__HAVE_FLOAT128 1", "__HAVE_FLOAT128X 0",
      "__HAVE_FLOAT128_UNLIKE_LDBL (__HAVE_DISTINCT_FLOAT128 && __LDBL_MANT_DIG__ != 113)",
      "__HAVE_FLOAT16 0", "__HAVE_FLOAT32 1", "__HAVE_FLOAT32X 1", "__HAVE_FLOAT64 1",
      "__HAVE_FLOAT64X 1", "__HAVE_FLOAT64X_LONG_DOUBLE 1", "__HAVE_FLOATN_NOT_TYPEDEF 1",
      "__INT_WCHAR_T_H", "__SIZE_T", "__SIZE_T__", "__WCHAR_T", "__WCHAR_T__", "___int_size_t_h",
      "___int_wchar_t_h", "__f128(x) x ##f128", "__f32(x) x ##f32", "__f32x(x) x ##f32x",
      "__f64(x) x ##f64", "__f64x(x) x ##f64x", "__ldiv_t_defined 1", "__lldiv_t_defined 1",
      "__size_t", "__size_t__", "__wchar_t__"]

def features : Header where
  name := "features.h"
  lines :=
    ownDefinitions
      ++ ["#if defined __STRICT_ANSI__ && __STDC_VERSION__ < 201112L",
        "#define _Static_assert(expr, diagnostic) extern int (*__Static_assert_function "
          ++ "(void)) [!!sizeof (struct \x7b int __error_if_negative: (expr) ? 2 : -1; "
          ++ "\x7d)]",
        "#endif", "#if !defined __STRICT_ANSI__ || defined _GNU_SOURCE || defined _DEFAULT_SOURCE "
          ++ "|| defined _BSD_SOURCE || defined _SVID_SOURCE"]
      ++ defining ["__USE_MISC 1"]
      ++ ["#endif", "#if defined __USE_MISC || defined _XOPEN_SOURCE || defined _POSIX_C_SOURCE || "
          ++ "defined _POSIX_SOURCE"]
      ++ defining ["__USE_POSIX 1"]
      ++ ["#endif", "#if defined _GNU_SOURCE"]
      ++ defining ["__USE_GNU 1"]
      ++ ["#endif"]

def basicTypes : Header where
  name := "bits/types.h"
  lines :=
    ["typedef unsigned char __u_char;", "typedef unsigned short int __u_short;",
        "typedef unsigned int __u_int;", "typedef unsigned long int __u_long;",
        "typedef signed char __int8_t;", "typedef unsigned char __uint8_t;",
        "typedef signed short int __int16_t;", "typedef unsigned short int __uint16_t;",
        "typedef signed int __int32_t;", "typedef unsigned int __uint32_t;",
        "typedef signed long int __int64_t;", "typedef unsigned long int __uint64_t;",
        "typedef long int __intmax_t;", "typedef unsigned long int __uintmax_t;",
        "typedef long int __off_t;", "typedef long int __off64_t;", "typedef int __pid_t;",
        "typedef long int __clock_t;", "typedef long int __time_t;", "typedef long int __ssize_t;",
        "typedef int __sig_atomic_t;"]

def sizeT : Header where
  name := "bits/size_t"
  lines :=
    ["typedef long unsigned int size_t;"]
      ++ defining ["NULL ((void *)0)"]

def wideT : Header where
  name := "bits/wchar_t"
  lines :=
    ["typedef int wchar_t;"]

def variadicList : Header where
  name := "bits/va_list"
  lines :=
    ["typedef __builtin_va_list __gnuc_va_list;"]

def stddef : Header where
  name := "stddef.h"
  includes := ["bits/size_t", "bits/wchar_t"]
  lines :=
    ["typedef long int ptrdiff_t;"]
      ++ defining ["offsetof(TYPE,MEMBER) __builtin_offsetof (TYPE, MEMBER)"]
      ++ ["#if __STDC_VERSION__ >= 201112L || defined __cplusplus",
        "typedef struct \x7b long long __max_align_ll "
          ++ "__attribute__((__aligned__(__alignof__(long long)))); long double "
          ++ "__max_align_ld __attribute__((__aligned__(__alignof__(long double)))); \x7d "
          ++ "max_align_t;",
        "#endif"]

def stdarg : Header where
  name := "stdarg.h"
  includes := ["bits/va_list"]
  lines :=
    ["typedef __gnuc_va_list va_list;"]
      ++ defining ["va_arg(v,l) __builtin_va_arg(v,l)", "va_copy(d,s) __builtin_va_copy(d,s)",
        "va_end(v) __builtin_va_end(v)", "va_start(v,l) __builtin_va_start(v,l)"]

def stdbool : Header where
  name := "stdbool.h"
  lines :=
    defining ["bool _Bool", "false 0", "true 1", "__bool_true_false_are_defined 1"]

def floatLimits : Header where
  name := "float.h"
  lines :=
    defining ["DBL_DIG __DBL_DIG__", "DBL_EPSILON __DBL_EPSILON__", "DBL_MANT_DIG __DBL_MANT_DIG__",
        "DBL_MAX __DBL_MAX__", "DBL_MAX_10_EXP __DBL_MAX_10_EXP__", "DBL_MAX_EXP __DBL_MAX_EXP__",
        "DBL_MIN __DBL_MIN__", "DBL_MIN_10_EXP __DBL_MIN_10_EXP__", "DBL_MIN_EXP __DBL_MIN_EXP__",
        "DECIMAL_DIG __DECIMAL_DIG__", "FLT_DIG __FLT_DIG__", "FLT_EPSILON __FLT_EPSILON__",
        "FLT_EVAL_METHOD __FLT_EVAL_METHOD__", "FLT_MANT_DIG __FLT_MANT_DIG__",
        "FLT_MAX __FLT_MAX__", "FLT_MAX_10_EXP __FLT_MAX_10_EXP__", "FLT_MAX_EXP __FLT_MAX_EXP__",
        "FLT_MIN __FLT_MIN__", "FLT_MIN_10_EXP __FLT_MIN_10_EXP__", "FLT_MIN_EXP __FLT_MIN_EXP__",
        "FLT_RADIX __FLT_RADIX__", "FLT_ROUNDS 1", "LDBL_DIG __LDBL_DIG__",
        "LDBL_EPSILON __LDBL_EPSILON__", "LDBL_MANT_DIG __LDBL_MANT_DIG__", "LDBL_MAX __LDBL_MAX__",
        "LDBL_MAX_10_EXP __LDBL_MAX_10_EXP__", "LDBL_MAX_EXP __LDBL_MAX_EXP__",
        "LDBL_MIN __LDBL_MIN__", "LDBL_MIN_10_EXP __LDBL_MIN_10_EXP__",
        "LDBL_MIN_EXP __LDBL_MIN_EXP__"]
      ++ ["#if __STDC_VERSION__ >= 201112L"]
      ++ defining ["DBL_TRUE_MIN __DBL_DENORM_MIN__", "FLT_TRUE_MIN __FLT_DENORM_MIN__",
        "DBL_DECIMAL_DIG __DBL_DECIMAL_DIG__", "FLT_DECIMAL_DIG __FLT_DECIMAL_DIG__"]
      ++ ["#endif"]

def limits : Header where
  name := "limits.h"
  includes := ["features.h"]
  lines :=
    defining ["CHAR_BIT __CHAR_BIT__", "CHAR_MAX SCHAR_MAX", "CHAR_MIN SCHAR_MIN", "INT_MAX __INT_MAX__",
        "INT_MIN (-INT_MAX - 1)", "LLONG_MAX __LONG_LONG_MAX__", "LLONG_MIN (-LLONG_MAX - 1LL)",
        "LONG_MAX __LONG_MAX__", "LONG_MIN (-LONG_MAX - 1L)", "MB_LEN_MAX 16",
        "SCHAR_MAX __SCHAR_MAX__", "SCHAR_MIN (-SCHAR_MAX - 1)", "SHRT_MAX __SHRT_MAX__",
        "SHRT_MIN (-SHRT_MAX - 1)", "UCHAR_MAX (SCHAR_MAX * 2 + 1)", "UINT_MAX (INT_MAX * 2U + 1U)",
        "ULLONG_MAX (LLONG_MAX * 2ULL + 1ULL)", "ULONG_MAX (LONG_MAX * 2UL + 1UL)",
        "USHRT_MAX (SHRT_MAX * 2 + 1)"]

def iso646 : Header where
  name := "iso646.h"
  lines :=
    defining ["and &&", "and_eq &=", "bitand &", "bitor |", "compl ~", "not !", "not_eq !=", "or ||", "or_eq |=",
        "xor ^", "xor_eq ^="]

def stdalign : Header where
  name := "stdalign.h"
  lines :=
    defining ["alignas _Alignas", "alignof _Alignof", "__alignas_is_defined 1", "__alignof_is_defined 1"]

def stdnoreturn : Header where
  name := "stdnoreturn.h"
  lines :=
    defining ["noreturn _Noreturn"]

def stdint : Header where
  name := "stdint.h"
  includes := ["features.h", "bits/types.h"]
  lines :=
    ["typedef __int8_t int8_t;", "typedef __uint8_t uint8_t;", "typedef __int8_t int_least8_t;",
        "typedef __uint8_t uint_least8_t;", "typedef __int16_t int16_t;",
        "typedef __uint16_t uint16_t;", "typedef __int16_t int_least16_t;",
        "typedef __uint16_t uint_least16_t;", "typedef __int32_t int32_t;",
        "typedef __uint32_t uint32_t;", "typedef __int32_t int_least32_t;",
        "typedef __uint32_t uint_least32_t;", "typedef __int64_t int64_t;",
        "typedef __uint64_t uint64_t;", "typedef __int64_t int_least64_t;",
        "typedef __uint64_t uint_least64_t;", "typedef signed char int_fast8_t;",
        "typedef long int int_fast16_t;", "typedef long int int_fast32_t;",
        "typedef long int int_fast64_t;", "typedef unsigned char uint_fast8_t;",
        "typedef unsigned long int uint_fast16_t;", "typedef unsigned long int uint_fast32_t;",
        "typedef unsigned long int uint_fast64_t;", "typedef long int intptr_t;",
        "typedef unsigned long int uintptr_t;", "typedef __intmax_t intmax_t;",
        "typedef __uintmax_t uintmax_t;"]
      ++ defining ["INT16_C(c) c", "INT16_MAX (32767)", "INT16_MIN (-32767-1)", "INT32_C(c) c",
        "INT32_MAX (2147483647)", "INT32_MIN (-2147483647-1)", "INT64_C(c) c ## L",
        "INT64_MAX (__INT64_C(9223372036854775807))",
        "INT64_MIN (-__INT64_C(9223372036854775807)-1)", "INT8_C(c) c", "INT8_MAX (127)",
        "INT8_MIN (-128)", "INTMAX_C(c) c ## L", "INTMAX_MAX (__INT64_C(9223372036854775807))",
        "INTMAX_MIN (-__INT64_C(9223372036854775807)-1)", "INTPTR_MAX (9223372036854775807L)",
        "INTPTR_MIN (-9223372036854775807L-1)", "INT_FAST16_MAX (9223372036854775807L)",
        "INT_FAST16_MIN (-9223372036854775807L-1)", "INT_FAST32_MAX (9223372036854775807L)",
        "INT_FAST32_MIN (-9223372036854775807L-1)",
        "INT_FAST64_MAX (__INT64_C(9223372036854775807))",
        "INT_FAST64_MIN (-__INT64_C(9223372036854775807)-1)", "INT_FAST8_MAX (127)",
        "INT_FAST8_MIN (-128)", "INT_LEAST16_MAX (32767)", "INT_LEAST16_MIN (-32767-1)",
        "INT_LEAST32_MAX (2147483647)", "INT_LEAST32_MIN (-2147483647-1)",
        "INT_LEAST64_MAX (__INT64_C(9223372036854775807))",
        "INT_LEAST64_MIN (-__INT64_C(9223372036854775807)-1)", "INT_LEAST8_MAX (127)",
        "INT_LEAST8_MIN (-128)", "PTRDIFF_MAX (9223372036854775807L)",
        "PTRDIFF_MIN (-9223372036854775807L-1)", "SIG_ATOMIC_MAX (2147483647)",
        "SIG_ATOMIC_MIN (-2147483647-1)", "SIZE_MAX (18446744073709551615UL)", "UINT16_C(c) c",
        "UINT16_MAX (65535)", "UINT32_C(c) c ## U", "UINT32_MAX (4294967295U)",
        "UINT64_C(c) c ## UL", "UINT64_MAX (__UINT64_C(18446744073709551615))", "UINT8_C(c) c",
        "UINT8_MAX (255)", "UINTMAX_C(c) c ## UL", "UINTMAX_MAX (__UINT64_C(18446744073709551615))",
        "UINTPTR_MAX (18446744073709551615UL)", "UINT_FAST16_MAX (18446744073709551615UL)",
        "UINT_FAST32_MAX (18446744073709551615UL)",
        "UINT_FAST64_MAX (__UINT64_C(18446744073709551615))", "UINT_FAST8_MAX (255)",
        "UINT_LEAST16_MAX (65535)", "UINT_LEAST32_MAX (4294967295U)",
        "UINT_LEAST64_MAX (__UINT64_C(18446744073709551615))", "UINT_LEAST8_MAX (255)",
        "WINT_MAX (4294967295u)", "WINT_MIN (0u)", "WCHAR_MAX __WCHAR_MAX__",
        "WCHAR_MIN __WCHAR_MIN__"]

def inttypes : Header where
  name := "inttypes.h"
  includes := ["stdint.h", "bits/wchar_t"]
  lines :=
    ["typedef struct \x7b long int quot; long int rem; \x7d imaxdiv_t;"]
      ++ defining ["PRIX16 \"X\"", "PRIX32 \"X\"", "PRIX64 \"l\" \"X\"", "PRIX8 \"X\"", "PRIXFAST16 \"l\" \"X\"",
        "PRIXFAST32 \"l\" \"X\"", "PRIXFAST64 \"l\" \"X\"", "PRIXFAST8 \"X\"", "PRIXLEAST16 \"X\"",
        "PRIXLEAST32 \"X\"", "PRIXLEAST64 \"l\" \"X\"", "PRIXLEAST8 \"X\"", "PRIXMAX \"l\" \"X\"",
        "PRIXPTR \"l\" \"X\"", "PRId16 \"d\"", "PRId32 \"d\"", "PRId64 \"l\" \"d\"", "PRId8 \"d\"",
        "PRIdFAST16 \"l\" \"d\"", "PRIdFAST32 \"l\" \"d\"", "PRIdFAST64 \"l\" \"d\"",
        "PRIdFAST8 \"d\"", "PRIdLEAST16 \"d\"", "PRIdLEAST32 \"d\"", "PRIdLEAST64 \"l\" \"d\"",
        "PRIdLEAST8 \"d\"", "PRIdMAX \"l\" \"d\"", "PRIdPTR \"l\" \"d\"", "PRIi16 \"i\"",
        "PRIi32 \"i\"", "PRIi64 \"l\" \"i\"", "PRIi8 \"i\"", "PRIiFAST16 \"l\" \"i\"",
        "PRIiFAST32 \"l\" \"i\"", "PRIiFAST64 \"l\" \"i\"", "PRIiFAST8 \"i\"", "PRIiLEAST16 \"i\"",
        "PRIiLEAST32 \"i\"", "PRIiLEAST64 \"l\" \"i\"", "PRIiLEAST8 \"i\"", "PRIiMAX \"l\" \"i\"",
        "PRIiPTR \"l\" \"i\"", "PRIo16 \"o\"", "PRIo32 \"o\"", "PRIo64 \"l\" \"o\"", "PRIo8 \"o\"",
        "PRIoFAST16 \"l\" \"o\"", "PRIoFAST32 \"l\" \"o\"", "PRIoFAST64 \"l\" \"o\"",
        "PRIoFAST8 \"o\"", "PRIoLEAST16 \"o\"", "PRIoLEAST32 \"o\"", "PRIoLEAST64 \"l\" \"o\"",
        "PRIoLEAST8 \"o\"", "PRIoMAX \"l\" \"o\"", "PRIoPTR \"l\" \"o\"", "PRIu16 \"u\"",
        "PRIu32 \"u\"", "PRIu64 \"l\" \"u\"", "PRIu8 \"u\"", "PRIuFAST16 \"l\" \"u\"",
        "PRIuFAST32 \"l\" \"u\"", "PRIuFAST64 \"l\" \"u\"", "PRIuFAST8 \"u\"", "PRIuLEAST16 \"u\"",
        "PRIuLEAST32 \"u\"", "PRIuLEAST64 \"l\" \"u\"", "PRIuLEAST8 \"u\"", "PRIuMAX \"l\" \"u\"",
        "PRIuPTR \"l\" \"u\"", "PRIx16 \"x\"", "PRIx32 \"x\"", "PRIx64 \"l\" \"x\"", "PRIx8 \"x\"",
        "PRIxFAST16 \"l\" \"x\"", "PRIxFAST32 \"l\" \"x\"", "PRIxFAST64 \"l\" \"x\"",
        "PRIxFAST8 \"x\"", "PRIxLEAST16 \"x\"", "PRIxLEAST32 \"x\"", "PRIxLEAST64 \"l\" \"x\"",
        "PRIxLEAST8 \"x\"", "PRIxMAX \"l\" \"x\"", "PRIxPTR \"l\" \"x\"", "SCNd16 \"hd\"",
        "SCNd32 \"d\"", "SCNd64 \"l\" \"d\"", "SCNd8 \"hhd\"", "SCNdFAST16 \"l\" \"d\"",
        "SCNdFAST32 \"l\" \"d\"", "SCNdFAST64 \"l\" \"d\"", "SCNdFAST8 \"hhd\"",
        "SCNdLEAST16 \"hd\"", "SCNdLEAST32 \"d\"", "SCNdLEAST64 \"l\" \"d\"", "SCNdLEAST8 \"hhd\"",
        "SCNdMAX \"l\" \"d\"", "SCNdPTR \"l\" \"d\"", "SCNi16 \"hi\"", "SCNi32 \"i\"",
        "SCNi64 \"l\" \"i\"", "SCNi8 \"hhi\"", "SCNiFAST16 \"l\" \"i\"", "SCNiFAST32 \"l\" \"i\"",
        "SCNiFAST64 \"l\" \"i\"", "SCNiFAST8 \"hhi\"", "SCNiLEAST16 \"hi\"", "SCNiLEAST32 \"i\"",
        "SCNiLEAST64 \"l\" \"i\"", "SCNiLEAST8 \"hhi\"", "SCNiMAX \"l\" \"i\"",
        "SCNiPTR \"l\" \"i\"", "SCNo16 \"ho\"", "SCNo32 \"o\"", "SCNo64 \"l\" \"o\"",
        "SCNo8 \"hho\"", "SCNoFAST16 \"l\" \"o\"", "SCNoFAST32 \"l\" \"o\"",
        "SCNoFAST64 \"l\" \"o\"", "SCNoFAST8 \"hho\"", "SCNoLEAST16 \"ho\"", "SCNoLEAST32 \"o\"",
        "SCNoLEAST64 \"l\" \"o\"", "SCNoLEAST8 \"hho\"", "SCNoMAX \"l\" \"o\"",
        "SCNoPTR \"l\" \"o\"", "SCNu16 \"hu\"", "SCNu32 \"u\"", "SCNu64 \"l\" \"u\"",
        "SCNu8 \"hhu\"", "SCNuFAST16 \"l\" \"u\"", "SCNuFAST32 \"l\" \"u\"",
        "SCNuFAST64 \"l\" \"u\"", "SCNuFAST8 \"hhu\"", "SCNuLEAST16 \"hu\"", "SCNuLEAST32 \"u\"",
        "SCNuLEAST64 \"l\" \"u\"", "SCNuLEAST8 \"hhu\"", "SCNuMAX \"l\" \"u\"",
        "SCNuPTR \"l\" \"u\"", "SCNx16 \"hx\"", "SCNx32 \"x\"", "SCNx64 \"l\" \"x\"",
        "SCNx8 \"hhx\"", "SCNxFAST16 \"l\" \"x\"", "SCNxFAST32 \"l\" \"x\"",
        "SCNxFAST64 \"l\" \"x\"", "SCNxFAST8 \"hhx\"", "SCNxLEAST16 \"hx\"", "SCNxLEAST32 \"x\"",
        "SCNxLEAST64 \"l\" \"x\"", "SCNxLEAST8 \"hhx\"", "SCNxMAX \"l\" \"x\"",
        "SCNxPTR \"l\" \"x\""]
      ++ declaring ["intmax_t imaxabs (intmax_t)", "imaxdiv_t imaxdiv (intmax_t, intmax_t)",
        "intmax_t strtoimax (const char *, char **, int)",
        "uintmax_t strtoumax (const char *, char **, int)"]

def stdlib : Header where
  name := "stdlib.h"
  includes := ["features.h", "bits/size_t", "bits/wchar_t"]
  lines :=
    ownStandardDefinitions
      ++ ["typedef struct \x7b int quot; int rem; \x7d div_t;",
        "typedef struct \x7b long int quot; long int rem; \x7d ldiv_t;",
        "typedef struct \x7b long long int quot; long long int rem; \x7d lldiv_t;"]
      ++ defining ["EXIT_FAILURE 1", "EXIT_SUCCESS 0", "MB_CUR_MAX (__ctype_get_mb_cur_max ())",
        "RAND_MAX 2147483647"]
      ++ declaring ["size_t __ctype_get_mb_cur_max (void)"]
      ++ ["typedef int (*__compar_fn_t) (const void *, const void *);"]
      ++ declaring ["double atof (const char *)", "int atoi (const char *)", "long int atol (const char *)",
        "long long int atoll (const char *)", "double strtod (const char *, char **)",
        "float strtof (const char *, char **)", "long double strtold (const char *, char **)",
        "long int strtol (const char *, char **, int)",
        "unsigned long int strtoul (const char *, char **, int)",
        "long long int strtoll (const char *, char **, int)",
        "unsigned long long int strtoull (const char *, char **, int)", "int rand (void)",
        "void srand (unsigned int)", "void *malloc (size_t)", "void *calloc (size_t, size_t)",
        "void *realloc (void *, size_t)", "void free (void *)", "void abort (void)",
        "int atexit (void (*) (void))", "void exit (int)", "void _Exit (int)",
        "char *getenv (const char *)", "int system (const char *)",
        "void *bsearch (const void *, const void *, size_t, size_t, __compar_fn_t)",
        "void qsort (void *, size_t, size_t, __compar_fn_t)", "int abs (int)",
        "long int labs (long int)", "long long int llabs (long long int)", "div_t div (int, int)",
        "ldiv_t ldiv (long int, long int)", "lldiv_t lldiv (long long int, long long int)",
        "int mblen (const char *, size_t)", "int mbtowc (wchar_t *, const char *, size_t)",
        "int wctomb (char *, wchar_t)", "size_t mbstowcs (wchar_t *, const char *, size_t)",
        "size_t wcstombs (char *, const wchar_t *, size_t)"]
      ++ ["#ifdef __USE_POSIX"]
      ++ declaring ["int setenv (const char *, const char *, int)", "int unsetenv (const char *)",
        "int putenv (char *)", "int posix_memalign (void **, size_t, size_t)",
        "int rand_r (unsigned int *)", "long int random (void)", "void srandom (unsigned int)",
        "double drand48 (void)", "long int lrand48 (void)", "void srand48 (long int)",
        "int mkstemp (char *)", "char *realpath (const char *, char *)"]
      ++ ["#endif", "#if defined __USE_MISC || __STDC_VERSION__ >= 201112L"]
      ++ declaring ["void *aligned_alloc (size_t, size_t)"]
      ++ ["#endif", "#ifdef __USE_MISC"]
      ++ defining ["alloca(size) __builtin_alloca (size)"]
      ++ declaring ["void qsort_r (void *, size_t, size_t, int (*) (const void *, const void *, "
          ++ "void *), void *)",
        "char *secure_getenv (const char *)"]
      ++ ["#endif"]

def stdio : Header where
  name := "stdio.h"
  includes := ["features.h", "bits/size_t", "bits/va_list", "bits/types.h"]
  lines :=
    ["typedef struct \x7b int __count; union \x7b unsigned int __wch; char "
          ++ "__wchb[4]; \x7d __value; \x7d __mbstate_t;",
        "typedef struct _G_fpos_t \x7b __off_t __pos; __mbstate_t __state; \x7d __fpos_t;",
        "struct _IO_FILE \x7b int _flags; char *_IO_buffers[11]; struct _IO_FILE "
          ++ "*_chain; int _fileno; int _flags2; __off_t _old_offset; char _unused2[88]; "
          ++ "\x7d;",
        "typedef struct _IO_FILE FILE;", "typedef __fpos_t fpos_t;", "extern FILE *stdin;",
        "extern FILE *stdout;", "extern FILE *stderr;"]
      ++ defining ["BUFSIZ 8192", "EOF (-1)", "FILENAME_MAX 4096", "FOPEN_MAX 16", "L_tmpnam 20", "SEEK_CUR 1",
        "SEEK_END 2", "SEEK_SET 0", "TMP_MAX 238328", "stderr stderr", "stdin stdin",
        "stdout stdout", "_IOFBF 0", "_IOLBF 1", "_IONBF 2"]
      ++ declaring ["int remove (const char *)", "int rename (const char *, const char *)", "int fclose (FILE *)",
        "FILE *tmpfile (void)", "char *tmpnam (char[20])", "int fflush (FILE *)",
        "FILE *fopen (const char *, const char *)",
        "FILE *freopen (const char *, const char *, FILE *)", "void setbuf (FILE *, char *)",
        "int setvbuf (FILE *, char *, int, size_t)", "int fprintf (FILE *, const char *, ...)",
        "int printf (const char *, ...)", "int sprintf (char *, const char *, ...)",
        "int vfprintf (FILE *, const char *, __gnuc_va_list)",
        "int vprintf (const char *, __gnuc_va_list)",
        "int vsprintf (char *, const char *, __gnuc_va_list)",
        "int snprintf (char *, size_t, const char *, ...)",
        "int vsnprintf (char *, size_t, const char *, __gnuc_va_list)",
        "int fscanf (FILE *, const char *, ...)", "int scanf (const char *, ...)",
        "int sscanf (const char *, const char *, ...)",
        "int vfscanf (FILE *, const char *, __gnuc_va_list)",
        "int vscanf (const char *, __gnuc_va_list)",
        "int vsscanf (const char *, const char *, __gnuc_va_list)", "int fgetc (FILE *)",
        "int getc (FILE *)", "int getchar (void)", "int fputc (int, FILE *)",
        "int putc (int, FILE *)", "int putchar (int)", "char *fgets (char *, int, FILE *)",
        "int fputs (const char *, FILE *)", "int puts (const char *)", "int ungetc (int, FILE *)",
        "size_t fread (void *, size_t, size_t, FILE *)",
        "size_t fwrite (const void *, size_t, size_t, FILE *)", "int fseek (FILE *, long int, int)",
        "long int ftell (FILE *)", "void rewind (FILE *)", "int fgetpos (FILE *, fpos_t *)",
        "int fsetpos (FILE *, const fpos_t *)", "void clearerr (FILE *)", "int feof (FILE *)",
        "int ferror (FILE *)", "void perror (const char *)"]
      ++ ["#if __STDC_VERSION__ < 201112L"]
      ++ declaring ["char *gets (char *)"]
      ++ ["#endif", "#ifdef __USE_POSIX"]
      ++ declaring ["int fileno (FILE *)", "FILE *fdopen (int, const char *)",
        "FILE *popen (const char *, const char *)", "int pclose (FILE *)",
        "int dprintf (int, const char *, ...)"]
      ++ ["#endif", "#ifdef __USE_GNU"]
      ++ declaring ["int asprintf (char **, const char *, ...)"]
      ++ ["#endif"]

def string : Header where
  name := "string.h"
  includes := ["features.h", "bits/size_t"]
  lines :=
    declaring ["void *memcpy (void *, const void *, size_t)", "void *memmove (void *, const void *, size_t)",
        "void *memset (void *, int, size_t)", "int memcmp (const void *, const void *, size_t)",
        "void *memchr (const void *, int, size_t)", "char *strcpy (char *, const char *)",
        "char *strncpy (char *, const char *, size_t)", "char *strcat (char *, const char *)",
        "char *strncat (char *, const char *, size_t)", "int strcmp (const char *, const char *)",
        "int strncmp (const char *, const char *, size_t)",
        "int strcoll (const char *, const char *)", "size_t strxfrm (char *, const char *, size_t)",
        "char *strchr (const char *, int)", "char *strrchr (const char *, int)",
        "size_t strcspn (const char *, const char *)", "size_t strspn (const char *, const char *)",
        "char *strpbrk (const char *, const char *)", "char *strstr (const char *, const char *)",
        "char *strtok (char *, const char *)", "size_t strlen (const char *)",
        "char *strerror (int)"]
      ++ ["#ifdef __USE_POSIX"]
      ++ declaring ["char *strdup (const char *)", "char *strndup (const char *, size_t)",
        "size_t strnlen (const char *, size_t)", "char *strtok_r (char *, const char *, char **)",
        "char *stpcpy (char *, const char *)", "void *memccpy (void *, const void *, int, size_t)"]
      ++ ["#endif", "#ifdef __USE_MISC"]
      ++ declaring ["void bcopy (const void *, void *, size_t)", "void bzero (void *, size_t)",
        "int bcmp (const void *, const void *, size_t)",
        "int strcasecmp (const char *, const char *)",
        "int strncasecmp (const char *, const char *, size_t)", "int ffs (int)",
        "char *index (const char *, int)", "char *rindex (const char *, int)"]
      ++ ["#endif", "#ifdef __USE_GNU"]
      ++ declaring ["void *mempcpy (void *, const void *, size_t)", "void *memrchr (const void *, int, size_t)",
        "char *strchrnul (const char *, int)"]
      ++ ["#endif"]

def strings : Header where
  name := "strings.h"
  includes := ["features.h", "bits/size_t"]
  lines :=
    declaring ["int strcasecmp (const char *, const char *)",
        "int strncasecmp (const char *, const char *, size_t)"]
      ++ ["#ifdef __USE_MISC"]
      ++ declaring ["void bcopy (const void *, void *, size_t)", "void bzero (void *, size_t)",
        "int bcmp (const void *, const void *, size_t)", "int ffs (int)",
        "char *index (const char *, int)", "char *rindex (const char *, int)"]
      ++ ["#endif"]

def ctype : Header where
  name := "ctype.h"
  includes := ["features.h", "bits/types.h"]
  lines :=
    declaring ["int isalnum (int)", "int isalpha (int)", "int iscntrl (int)", "int isdigit (int)",
        "int islower (int)", "int isgraph (int)", "int isprint (int)", "int ispunct (int)",
        "int isspace (int)", "int isupper (int)", "int isxdigit (int)", "int tolower (int)",
        "int toupper (int)", "int isblank (int)"]
      ++ ["#ifdef __USE_POSIX"]
      ++ declaring ["int isascii (int)", "int toascii (int)"]
      ++ ["#endif"]

def time : Header where
  name := "time.h"
  includes := ["features.h", "bits/size_t", "bits/types.h"]
  lines :=
    ["typedef __clock_t clock_t;", "typedef __time_t time_t;",
        "struct tm \x7b int tm_sec; int tm_min; int tm_hour; int tm_mday; int tm_mon; "
          ++ "int tm_year; int tm_wday; int tm_yday; int tm_isdst; long int __tm_gmtoff; "
          ++ "const char *__tm_zone; \x7d;"]
      ++ defining ["CLOCKS_PER_SEC ((__clock_t) 1000000)"]
      ++ declaring ["clock_t clock (void)", "time_t time (time_t *)", "double difftime (time_t, time_t)",
        "time_t mktime (struct tm *)",
        "size_t strftime (char *, size_t, const char *, const struct tm *)",
        "struct tm *gmtime (const time_t *)", "struct tm *localtime (const time_t *)",
        "char *asctime (const struct tm *)", "char *ctime (const time_t *)"]
      ++ ["#if defined __USE_POSIX || __STDC_VERSION__ >= 201112L",
        "struct timespec \x7b __time_t tv_sec; long int tv_nsec; \x7d;", "#endif",
        "#ifdef __USE_POSIX", "typedef int clockid_t;"]
      ++ defining ["CLOCK_REALTIME 0", "CLOCK_MONOTONIC 1"]
      ++ declaring ["int clock_gettime (clockid_t, struct timespec *)",
        "int nanosleep (const struct timespec *, struct timespec *)",
        "struct tm *gmtime_r (const time_t *, struct tm *)",
        "struct tm *localtime_r (const time_t *, struct tm *)"]
      ++ ["#endif"]

def assertion : Header where
  name := "assert.h"
  includes := ["features.h"]
  lines :=
    ["#undef assert", "#ifdef NDEBUG"]
      ++ defining ["assert(expr) ((void) (0))"]
      ++ ["#else"]
      ++ declaring ["void __assert_fail (const char *, const char *, unsigned int, const char *)"]
      ++ ["#define assert(expr) ((expr) ? (void) (0) : __assert_fail (#expr, __FILE__, "
          ++ "__LINE__, __extension__ __PRETTY_FUNCTION__))",
        "#endif", "#if __STDC_VERSION__ >= 201112L", "#undef static_assert"]
      ++ defining ["static_assert _Static_assert"]
      ++ ["#endif"]

def errno : Header where
  name := "errno.h"
  includes := ["features.h"]
  lines :=
    declaring ["int *__errno_location (void)"]
      ++ defining ["errno (*__errno_location ())", "E2BIG 7", "EACCES 13", "EADDRINUSE 98", "EADDRNOTAVAIL 99",
        "EADV 68", "EAFNOSUPPORT 97", "EAGAIN 11", "EALREADY 114", "EBADE 52", "EBADF 9",
        "EBADFD 77", "EBADMSG 74", "EBADR 53", "EBADRQC 56", "EBADSLT 57", "EBFONT 59", "EBUSY 16",
        "ECANCELED 125", "ECHILD 10", "ECHRNG 44", "ECOMM 70", "ECONNABORTED 103",
        "ECONNREFUSED 111", "ECONNRESET 104", "EDEADLK 35", "EDEADLOCK EDEADLK", "EDESTADDRREQ 89",
        "EDOM 33", "EDOTDOT 73", "EDQUOT 122", "EEXIST 17", "EFAULT 14", "EFBIG 27",
        "EHOSTDOWN 112", "EHOSTUNREACH 113", "EHWPOISON 133", "EIDRM 43", "EILSEQ 84",
        "EINPROGRESS 115", "EINTR 4", "EINVAL 22", "EIO 5", "EISCONN 106", "EISDIR 21",
        "EISNAM 120", "EKEYEXPIRED 127", "EKEYREJECTED 129", "EKEYREVOKED 128", "EL2HLT 51",
        "EL2NSYNC 45", "EL3HLT 46", "EL3RST 47", "ELIBACC 79", "ELIBBAD 80", "ELIBEXEC 83",
        "ELIBMAX 82", "ELIBSCN 81", "ELNRNG 48", "ELOOP 40", "EMEDIUMTYPE 124", "EMFILE 24",
        "EMLINK 31", "EMSGSIZE 90", "EMULTIHOP 72", "ENAMETOOLONG 36", "ENAVAIL 119",
        "ENETDOWN 100", "ENETRESET 102", "ENETUNREACH 101", "ENFILE 23", "ENOANO 55", "ENOBUFS 105",
        "ENOCSI 50", "ENODATA 61", "ENODEV 19", "ENOENT 2", "ENOEXEC 8", "ENOKEY 126", "ENOLCK 37",
        "ENOLINK 67", "ENOMEDIUM 123", "ENOMEM 12", "ENOMSG 42", "ENONET 64", "ENOPKG 65",
        "ENOPROTOOPT 92", "ENOSPC 28", "ENOSR 63", "ENOSTR 60", "ENOSYS 38", "ENOTBLK 15",
        "ENOTCONN 107", "ENOTDIR 20", "ENOTEMPTY 39", "ENOTNAM 118", "ENOTRECOVERABLE 131",
        "ENOTSOCK 88", "ENOTSUP EOPNOTSUPP", "ENOTTY 25", "ENOTUNIQ 76", "ENXIO 6", "EOPNOTSUPP 95",
        "EOVERFLOW 75", "EOWNERDEAD 130", "EPERM 1", "EPFNOSUPPORT 96", "EPIPE 32", "EPROTO 71",
        "EPROTONOSUPPORT 93", "EPROTOTYPE 91", "ERANGE 34", "EREMCHG 78", "EREMOTE 66",
        "EREMOTEIO 121", "ERESTART 85", "ERFKILL 132", "EROFS 30", "ESHUTDOWN 108",
        "ESOCKTNOSUPPORT 94", "ESPIPE 29", "ESRCH 3", "ESRMNT 69", "ESTALE 116", "ESTRPIPE 86",
        "ETIME 62", "ETIMEDOUT 110", "ETOOMANYREFS 109", "ETXTBSY 26", "EUCLEAN 117", "EUNATCH 49",
        "EUSERS 87", "EWOULDBLOCK EAGAIN", "EXDEV 18", "EXFULL 54"]

def setjmp : Header where
  name := "setjmp.h"
  includes := ["features.h"]
  lines :=
    ["typedef long int __jmp_buf[8];",
        "typedef struct \x7b unsigned long int __val[(1024 / (8 * sizeof (unsigned long "
          ++ "int)))]; \x7d __sigset_t;",
        "struct __jmp_buf_tag \x7b __jmp_buf __jmpbuf; int __mask_was_saved; __sigset_t "
          ++ "__saved_mask; \x7d;",
        "typedef struct __jmp_buf_tag jmp_buf[1];"]
      ++ declaring ["int setjmp (jmp_buf)", "int _setjmp (struct __jmp_buf_tag [1])",
        "void longjmp (struct __jmp_buf_tag [1], int)"]
      ++ defining ["setjmp(env) _setjmp (env)"]

def signal : Header where
  name := "signal.h"
  includes := ["features.h", "bits/types.h"]
  lines :=
    ["typedef __sig_atomic_t sig_atomic_t;", "typedef void (*__sighandler_t) (int);"]
      ++ defining ["SIGABRT 6", "SIGALRM 14", "SIGBUS 7", "SIGCHLD 17", "SIGCLD SIGCHLD", "SIGCONT 18", "SIGFPE 8",
        "SIGHUP 1", "SIGILL 4", "SIGINT 2", "SIGIO SIGPOLL", "SIGIOT SIGABRT", "SIGKILL 9",
        "SIGPIPE 13", "SIGPOLL 29", "SIGPROF 27", "SIGPWR 30", "SIGQUIT 3", "SIGSEGV 11",
        "SIGSTKFLT 16", "SIGSTOP 19", "SIGSYS 31", "SIGTERM 15", "SIGTRAP 5", "SIGTSTP 20",
        "SIGTTIN 21", "SIGTTOU 22", "SIGURG 23", "SIGUSR1 10", "SIGUSR2 12", "SIGVTALRM 26",
        "SIGWINCH 28", "SIGXCPU 24", "SIGXFSZ 25", "SIG_DFL ((__sighandler_t) 0)",
        "SIG_ERR ((__sighandler_t) -1)", "SIG_IGN ((__sighandler_t) 1)"]
      ++ declaring ["__sighandler_t signal (int, __sighandler_t)", "int raise (int)"]
      ++ ["#ifdef __USE_POSIX"]
      ++ declaring ["int kill (__pid_t, int)"]
      ++ ["#endif"]

def locale : Header where
  name := "locale.h"
  includes := ["features.h", "bits/size_t"]
  lines :=
    ["struct lconv \x7b char *decimal_point; char *thousands_sep; char *grouping; "
          ++ "char *int_curr_symbol; char *currency_symbol; char *mon_decimal_point; char "
          ++ "*mon_thousands_sep; char *mon_grouping; char *positive_sign; char "
          ++ "*negative_sign; char int_frac_digits; char frac_digits; char p_cs_precedes; "
          ++ "char p_sep_by_space; char n_cs_precedes; char n_sep_by_space; char "
          ++ "p_sign_posn; char n_sign_posn; char int_p_cs_precedes; char "
          ++ "int_p_sep_by_space; char int_n_cs_precedes; char int_n_sep_by_space; char "
          ++ "int_p_sign_posn; char int_n_sign_posn; \x7d;"]
      ++ defining ["LC_CTYPE 0", "LC_NUMERIC 1", "LC_TIME 2", "LC_COLLATE 3", "LC_MONETARY 4", "LC_MESSAGES 5",
        "LC_ALL 6"]
      ++ declaring ["char *setlocale (int, const char *)", "struct lconv *localeconv (void)"]

def fenv : Header where
  name := "fenv.h"
  includes := ["features.h"]
  lines :=
    defining ["FE_ALL_EXCEPT (FE_INEXACT | FE_DIVBYZERO | FE_UNDERFLOW | FE_OVERFLOW | FE_INVALID)",
        "FE_DFL_ENV ((const fenv_t *) -1)", "FE_DIVBYZERO 0x04", "FE_DOWNWARD 0x400",
        "FE_INEXACT 0x20", "FE_INVALID 0x01", "FE_OVERFLOW 0x08", "FE_TONEAREST 0",
        "FE_TOWARDZERO 0xc00", "FE_UNDERFLOW 0x10", "FE_UPWARD 0x800"]
      ++ ["typedef unsigned short int fexcept_t;",
        "typedef struct \x7b unsigned int __words[7]; unsigned int __mxcsr; \x7d fenv_t;"]
      ++ declaring ["int feclearexcept (int)", "int fegetexceptflag (fexcept_t *, int)", "int feraiseexcept (int)",
        "int fesetexceptflag (const fexcept_t *, int)", "int fetestexcept (int)",
        "int fegetround (void)", "int fesetround (int)", "int fegetenv (fenv_t *)",
        "int feholdexcept (fenv_t *)", "int fesetenv (const fenv_t *)",
        "int feupdateenv (const fenv_t *)"]

def wchar : Header where
  name := "wchar.h"
  includes := ["features.h", "bits/size_t", "bits/wchar_t", "bits/va_list", "bits/types.h"]
  lines :=
    ["typedef unsigned int wint_t;",
        "typedef struct \x7b int __count; union \x7b unsigned int __wch; char "
          ++ "__wchb[4]; \x7d __value; \x7d mbstate_t;"]
      ++ defining ["WEOF (0xffffffffu)", "WCHAR_MAX __WCHAR_MAX__", "WCHAR_MIN __WCHAR_MIN__"]
      ++ declaring ["wchar_t *wcscpy (wchar_t *, const wchar_t *)", "wchar_t *wcscat (wchar_t *, const wchar_t *)",
        "int wcscmp (const wchar_t *, const wchar_t *)", "size_t wcslen (const wchar_t *)",
        "wchar_t *wcschr (const wchar_t *, wchar_t)",
        "wchar_t *wmemset (wchar_t *, wchar_t, size_t)",
        "wchar_t *wmemcpy (wchar_t *, const wchar_t *, size_t)",
        "int wmemcmp (const wchar_t *, const wchar_t *, size_t)", "wint_t btowc (int)",
        "int wctob (wint_t)"]

def wctype : Header where
  name := "wctype.h"
  includes := ["features.h"]
  lines :=
    ["typedef unsigned int wint_t;", "typedef unsigned long int wctype_t;"]
      ++ declaring ["int iswalnum (wint_t)", "int iswalpha (wint_t)", "int iswblank (wint_t)", "int iswcntrl (wint_t)",
        "int iswdigit (wint_t)", "int iswgraph (wint_t)", "int iswlower (wint_t)",
        "int iswprint (wint_t)", "int iswpunct (wint_t)", "int iswspace (wint_t)",
        "int iswupper (wint_t)", "int iswxdigit (wint_t)", "wint_t towlower (wint_t)",
        "wint_t towupper (wint_t)"]

def unistd : Header where
  name := "unistd.h"
  includes := ["features.h", "bits/size_t", "bits/types.h"]
  lines :=
    ["typedef __ssize_t ssize_t;"]
      ++ defining ["STDIN_FILENO 0", "STDOUT_FILENO 1", "STDERR_FILENO 2", "R_OK 4", "W_OK 2", "X_OK 1", "F_OK 0"]
      ++ declaring ["int access (const char *, int)", "int close (int)", "ssize_t read (int, void *, size_t)",
        "ssize_t write (int, const void *, size_t)", "unsigned int alarm (unsigned int)",
        "unsigned int sleep (unsigned int)", "int pause (void)", "int chdir (const char *)",
        "char *getcwd (char *, size_t)", "int dup (int)", "int dup2 (int, int)",
        "__pid_t fork (void)", "__pid_t getpid (void)", "__pid_t getppid (void)",
        "unsigned int getuid (void)", "int isatty (int)", "int unlink (const char *)",
        "int rmdir (const char *)", "void _exit (int)", "int pipe (int [2])",
        "long int sysconf (int)"]
      ++ ["#ifdef __USE_MISC"]
      ++ declaring ["int usleep (unsigned int)", "int getpagesize (void)", "void *sbrk (long int)"]
      ++ ["#endif"]

def sysTypes : Header where
  name := "sys/types.h"
  includes := ["features.h", "bits/types.h", "bits/size_t"]
  lines :=
    ["typedef __ssize_t ssize_t;", "typedef __off_t off_t;", "typedef __pid_t pid_t;",
        "typedef __time_t time_t;", "typedef unsigned int uid_t;", "typedef unsigned int gid_t;",
        "typedef unsigned int mode_t;", "typedef __int8_t int8_t;", "typedef __int16_t int16_t;",
        "typedef __int32_t int32_t;", "typedef __int64_t int64_t;"]

def mallocExtras : Header where
  name := "malloc.h"
  includes := ["stddef.h", "stdio.h"]
  lines :=
    declaring ["void *malloc (size_t)", "void *calloc (size_t, size_t)", "void *realloc (void *, size_t)",
        "void free (void *)", "void *memalign (size_t, size_t)", "void *valloc (size_t)"]

def alloca : Header where
  name := "alloca.h"
  includes := ["features.h", "bits/size_t"]
  lines :=
    defining ["alloca(size) __builtin_alloca (size)"]
      ++ declaring ["void *alloca (size_t)"]

def complexNumbers : Header where
  name := "complex.h"
  includes := ["features.h"]
  lines :=
    defining ["complex _Complex", "_Complex_I (__extension__ 1.0iF)", "I _Complex_I"]

def memoryAlias : Header where
  name := "memory.h"
  includes := ["string.h"]

def stdatomic : Header where
  name := "stdatomic.h"
  includes := ["stdint.h", "stddef.h"]
  lines :=
    ["typedef enum \x7b memory_order_relaxed = 0, memory_order_consume = 1, "
          ++ "memory_order_acquire = 2, memory_order_release = 3, memory_order_acq_rel = 4, "
          ++ "memory_order_seq_cst = 5 \x7d memory_order;",
        "typedef _Atomic _Bool atomic_bool;", "typedef _Atomic char atomic_char;",
        "typedef _Atomic int atomic_int;", "typedef _Atomic unsigned int atomic_uint;",
        "typedef _Atomic long atomic_long;", "typedef _Atomic unsigned long atomic_ulong;",
        "typedef _Atomic size_t atomic_size_t;"]
      ++ defining ["ATOMIC_VAR_INIT(VALUE) (VALUE)", "atomic_init(PTR, VAL) ((void) (*(PTR) = (VAL)))",
        "atomic_store(PTR, VAL) ((void) (*(PTR) = (VAL)))", "atomic_load(PTR) (*(PTR))",
        "atomic_fetch_add(PTR, VAL) __atomic_fetch_add ((PTR), (VAL), 5)",
        "atomic_fetch_sub(PTR, VAL) __atomic_fetch_sub ((PTR), (VAL), 5)",
        "atomic_exchange(PTR, VAL) __atomic_exchange_n ((PTR), (VAL), 5)"]

def math : Header where
  name := "math.h"
  includes := ["features.h", "bits/types.h"]
  lines :=
    ["typedef float float_t;", "typedef double double_t;"]
      ++ defining ["FP_ILOGB0 (-2147483647 - 1)", "FP_ILOGBNAN (-2147483647 - 1)", "FP_INFINITE 1", "FP_NAN 0",
        "FP_NORMAL 4", "FP_SUBNORMAL 3", "FP_ZERO 2", "HUGE_VAL (__builtin_huge_val ())",
        "HUGE_VALF (__builtin_huge_valf ())", "HUGE_VALL (__builtin_huge_vall ())",
        "INFINITY (__builtin_inff ())", "MATH_ERREXCEPT 2", "MATH_ERRNO 1",
        "NAN (__builtin_nanf (\"\"))"]
      ++ ["#define fpclassify(x) __builtin_fpclassify (FP_NAN, FP_INFINITE, FP_NORMAL, "
          ++ "FP_SUBNORMAL, FP_ZERO, x)"]
      ++ defining ["isfinite(x) __builtin_isfinite (x)", "isgreater(x,y) __builtin_isgreater(x, y)",
        "isgreaterequal(x,y) __builtin_isgreaterequal(x, y)", "isinf(x) __builtin_isinf_sign (x)",
        "isless(x,y) __builtin_isless(x, y)", "islessequal(x,y) __builtin_islessequal(x, y)",
        "islessgreater(x,y) __builtin_islessgreater(x, y)", "isnan(x) __builtin_isnan (x)",
        "isnormal(x) __builtin_isnormal (x)", "isunordered(x,y) __builtin_isunordered(x, y)",
        "math_errhandling (MATH_ERRNO | MATH_ERREXCEPT)", "signbit(x) __builtin_signbit (x)"]
      ++ declaring mathDeclarations
      ++ ["#if defined __USE_MISC || defined _XOPEN_SOURCE"]
      ++ defining ["M_E 2.7182818284590452354", "M_LOG2E 1.4426950408889634074", "M_LOG10E 0.43429448190325182765",
        "M_LN2 0.69314718055994530942", "M_LN10 2.30258509299404568402",
        "M_PI 3.14159265358979323846", "M_PI_2 1.57079632679489661923",
        "M_PI_4 0.78539816339744830962", "M_1_PI 0.31830988618379067154",
        "M_2_PI 0.63661977236758134308", "M_2_SQRTPI 1.12837916709551257390",
        "M_SQRT2 1.41421356237309504880", "M_SQRT1_2 0.70710678118654752440"]
      ++ ["#endif"]

def all : List Header :=
  [features, basicTypes, sizeT, wideT, variadicList, stddef, stdarg, stdbool, floatLimits, limits,
    iso646, stdalign, stdnoreturn, stdint, inttypes, stdlib, stdio, string, strings, ctype, time,
    assertion, errno, setjmp, signal, locale, fenv, wchar, wctype, unistd, sysTypes, mallocExtras,
    alloca, complexNumbers, memoryAlias, stdatomic, math]

/-- The headers of which only the names are known. -/
def others : List String :=
  ["arpa/inet.h", "byteswap.h", "cpuid.h", "dirent.h", "dlfcn.h", "emmintrin.h", "endian.h",
    "execinfo.h", "fcntl.h", "fnmatch.h", "getopt.h", "glob.h", "grp.h", "iconv.h", "immintrin.h",
    "langinfo.h", "libgen.h", "link.h", "mm_malloc.h", "monetary.h", "net/if.h", "netdb.h",
    "netinet/in.h", "netinet/tcp.h", "nl_types.h", "nmmintrin.h", "omp.h", "pmmintrin.h", "poll.h",
    "pthread.h", "pwd.h", "quadmath.h", "regex.h", "resolv.h", "sched.h", "search.h", "semaphore.h",
    "smmintrin.h", "spawn.h", "stdfix.h", "sys/cdefs.h", "sys/file.h", "sys/ioctl.h", "sys/ipc.h",
    "sys/mman.h", "sys/param.h", "sys/resource.h", "sys/select.h", "sys/sem.h", "sys/shm.h",
    "sys/socket.h", "sys/stat.h", "sys/statvfs.h", "sys/syscall.h", "sys/time.h", "sys/times.h",
    "sys/uio.h", "sys/un.h", "sys/utsname.h", "sys/wait.h", "syslog.h", "tar.h", "termios.h",
    "tgmath.h", "threads.h", "tmmintrin.h", "uchar.h", "ucontext.h", "unwind.h", "utime.h",
    "utmpx.h", "values.h", "wait.h", "wmmintrin.h", "wordexp.h", "x86intrin.h", "xmmintrin.h"]

def ofName? (name : String) : Option Header :=
  match all.find? (·.name == name) with
  | some h => some h
  | none => if others.contains name then some { name } else none

/-- The name that a line declares as a function: the word in front of the first bracket. -/
def declaredName (line : String) : String :=
  let front := line.toList.takeWhile (· ≠ '(')
  let word := (front.reverse.dropWhile (· == ' ')).takeWhile fun c => c.isAlphanum || c == '_'
  String.ofList word.reverse

def functions : Std.HashMap String String :=
  Std.HashMap.ofList ((all.flatMap (·.lines)).filterMap fun line =>
    if line.startsWith "extern " && line.contains '(' then some (declaredName line, line) else none)

end Header

end LoopNest.Compiler
